import LogosPluginQt.Consumer
import LogosPluginQt.HashTables

namespace LogosPluginQt
open HashTables
set_option autoImplicit true

inductive LogosMode where
  | remote
  | localMode
  | mock
deriving DecidableEq

/-- A transport's configuration; the two enumerations go by their numbers. Its `operator==`
is equality of every field. -/
structure LogosTransportConfig where
  protocol : Int
  host : List UInt8
  port : BitVec 16
  caFile : List UInt8
  certFile : List UInt8
  keyFile : List UInt8
  verifyPeer : Bool
  codec : Int
deriving DecidableEq

/-- An argument of `qHashMulti`: one of Qt's own types, or one with a `qHash` of its own. -/
inductive HashItem where
  | qString (s : String)
  | int (n : Int)
  | size (n : BitVec 64)
  | port (n : BitVec 16)
  | bool (b : Bool)
  | own (qHash : BitVec 64 → BitVec 64)

/-- What the two `qHash` of the cache call, and the number of a mode. -/
structure HashFunctions where
  modeNumber : LogosMode → Int
  stdHash : List UInt8 → BitVec 64
  qHashMulti : BitVec 64 → List HashItem → BitVec 64

structure LogosAPIClientCacheKey where
  target : String
  mode : LogosMode
  transport : LogosTransportConfig
deriving DecidableEq

section
variable (f : HashFunctions)

def qHashTransport (cfg : LogosTransportConfig) (seed : BitVec 64) : BitVec 64 :=
  f.qHashMulti seed [.int cfg.protocol, .size (f.stdHash cfg.host), .port cfg.port,
    .size (f.stdHash cfg.caFile), .size (f.stdHash cfg.certFile), .size (f.stdHash cfg.keyFile),
    .bool cfg.verifyPeer, .int cfg.codec]

namespace LogosAPIClientCacheKey

def eq (a b : LogosAPIClientCacheKey) : Bool :=
  if a.target ≠ b.target then false
  else if a.mode ≠ b.mode then false
  else if a.mode = .remote then a.transport = b.transport else true

def qHash (k : LogosAPIClientCacheKey) (seed : BitVec 64) : BitVec 64 :=
  if k.mode = .remote then
    f.qHashMulti seed [.qString k.target, .int (f.modeNumber k.mode),
      .own (qHashTransport f k.transport)]
  else f.qHashMulti seed [.qString k.target, .int (f.modeNumber k.mode)]

def hashing : Hashing LogosAPIClientCacheKey where
  eq := eq
  hash := qHash f

end LogosAPIClientCacheKey

end

structure LogosAPIClient where
  targetModule : String
  originModule : Identity
  tokenManager : Option StoreRef
  transport : LogosTransportConfig
  capabilityTransport : LogosTransportConfig

/-- What is called on one `LogosAPI`, and on the process-wide settings it reads. -/
inductive ClientOp where
  | getClient (target : String)
  -- a null pointer is an empty name
  | getClientCString (target : Option (List UInt8))
  | getClientStdString (target : List UInt8)
  | getClientOn (target : String) (transport : LogosTransportConfig)
  | setMode (mode : LogosMode)
  | setDefault (transport : LogosTransportConfig)
  | setCapabilityModuleTransport (transport : LogosTransportConfig)

/-- A `LogosAPI` with its cache, in its process. A client goes by its number. -/
structure ClientWorld {f : HashFunctions}
    (qHash : HashMap (LogosAPIClientCacheKey.hashing f) Nat) where
  api : LogosAPI
  mode : LogosMode
  defaultTransport : LogosTransportConfig
  capabilityModuleTransport : Option LogosTransportConfig := none
  clients : qHash.Table
  constructed : List LogosAPIClient := []
  -- the calls so far, the last one first, with the keys they were made with
  calls : List (LogosAPIClientCacheKey × Nat) := []

namespace ClientWorld

section
variable {f : HashFunctions} {qHash : HashMap (LogosAPIClientCacheKey.hashing f) Nat}
  (fromUtf8 : List UInt8 → String)

/-- `getClient` with a transport: what runs on the owner's thread, in one step. -/
def getClientOn (w : ClientWorld qHash) (target : String) (transport : LogosTransportConfig) :
    Nat × ClientWorld qHash :=
  let key : LogosAPIClientCacheKey := ⟨target, w.mode, transport⟩
  match qHash.find w.clients key with
  | some client => (client, w)
  | none =>
    let capabilityTransport := w.capabilityModuleTransport.getD w.defaultTransport
    let client := w.constructed.length
    (client, { w with
      clients := qHash.insert w.clients key client
      constructed := w.constructed ++ [⟨target, w.api.moduleName, w.api.getTokenManager,
        transport, capabilityTransport⟩] })

/-- `getClient` without one takes the process's default. -/
def getClient (w : ClientWorld qHash) (target : String) : Nat × ClientWorld qHash :=
  w.getClientOn target w.defaultTransport

def record (w : ClientWorld qHash) (target : String) (transport : LogosTransportConfig)
    (answer : Nat × ClientWorld qHash) : ClientWorld qHash :=
  { answer.2 with calls := (⟨target, w.mode, transport⟩, answer.1) :: w.calls }

def step (w : ClientWorld qHash) : ClientOp → ClientWorld qHash
  | .getClient target => w.record target w.defaultTransport (w.getClient target)
  | .getClientCString target =>
    let target := (target.map fromUtf8).getD ""
    w.record target w.defaultTransport (w.getClient target)
  | .getClientStdString target =>
    w.record (fromUtf8 target) w.defaultTransport (w.getClient (fromUtf8 target))
  | .getClientOn target transport => w.record target transport (w.getClientOn target transport)
  | .setMode mode => { w with mode := mode }
  | .setDefault transport => { w with defaultTransport := transport }
  | .setCapabilityModuleTransport transport =>
    { w with capabilityModuleTransport := some transport }

def run (w : ClientWorld qHash) (ops : List ClientOp) : ClientWorld qHash :=
  ops.foldl (step fromUtf8) w

def initial (qHash : HashMap (LogosAPIClientCacheKey.hashing f) Nat) (api : LogosAPI)
    (mode : LogosMode) (defaultTransport : LogosTransportConfig) : ClientWorld qHash where
  api := api
  mode := mode
  defaultTransport := defaultTransport
  clients := qHash.empty

end

end ClientWorld

namespace LogosAPIClientCacheKey

/-- What a key is compared by: its transport only counts in Remote mode. -/
def endpoint (k : LogosAPIClientCacheKey) :
    String × LogosMode × Option LogosTransportConfig :=
  (k.target, k.mode, if k.mode = .remote then some k.transport else none)

section
variable {f : HashFunctions} {a b : LogosAPIClientCacheKey}

theorem eq_iff : eq a b = true ↔ a.target = b.target ∧ a.mode = b.mode ∧
    (a.mode = .remote → a.transport = b.transport) := by
  unfold eq
  by_cases ht : a.target = b.target
  · by_cases hm : a.mode = b.mode
    · by_cases hr : a.mode = .remote
      · simp only [ht, hm, ne_eq, not_true_eq_false, ↓reduceIte, hm ▸ hr, decide_eq_true_eq,
          true_and, forall_const]
      · simp only [ht, hm, ne_eq, not_true_eq_false, ↓reduceIte, hm ▸ hr, true_and,
          false_implies]
    · simp only [ht, hm, ne_eq, not_true_eq_false, not_false_eq_true, ↓reduceIte,
        Bool.false_eq_true, false_and, and_false]
  · simp only [ht, ne_eq, not_false_eq_true, ↓reduceIte, Bool.false_eq_true, false_and]

theorem endpoint_eq_iff : a.endpoint = b.endpoint ↔ a.target = b.target ∧ a.mode = b.mode ∧
    (a.mode = .remote → a.transport = b.transport) := by
  simp only [endpoint, Prod.mk.injEq]
  refine and_congr_right fun _ => and_congr_right fun hm => ?_
  rw [← hm]
  by_cases hr : a.mode = .remote
  · simp only [hr, ↓reduceIte, Option.some.injEq, forall_const]
  · simp only [hr, ↓reduceIte, false_implies]

theorem hashing_coherent (f : HashFunctions) : Coherent (hashing f) := by
  apply Coherent.of_eq_iff endpoint
  · intro a b
    exact eq_iff.trans endpoint_eq_iff.symm
  · intro a b seed h
    obtain ⟨ht, hm, htransport⟩ := endpoint_eq_iff.1 h
    simp only [hashing, qHash, ← ht, ← hm]
    by_cases hr : a.mode = .remote
    · rw [if_pos hr, if_pos hr, htransport hr]
    · rw [if_neg hr, if_neg hr]

end

end LogosAPIClientCacheKey

namespace ClientWorld

section
variable {f : HashFunctions} {qHash : HashMap (LogosAPIClientCacheKey.hashing f) Nat}
  {w : ClientWorld qHash}

def memo (w : ClientWorld qHash) : Memo qHash := ⟨w.clients, w.constructed.length, w.calls⟩

theorem memo_record (target : String) (transport : LogosTransportConfig) :
    (w.record target transport (w.getClientOn target transport)).memo =
      (w.memo.ask ⟨target, w.mode, transport⟩).2 := by
  unfold record getClientOn Memo.ask memo
  dsimp only
  cases qHash.find w.clients ⟨target, w.mode, transport⟩ with
  | some client => rfl
  | none => simp only [List.length_append, List.length_singleton]

/-- Every call has been given a client made for its target, and, in Remote mode, for its
transport. -/
def Fitting (w : ClientWorld qHash) : Prop :=
  ∀ k client, (k, client) ∈ w.calls → ∃ made, w.constructed[client]? = some made ∧
    made.targetModule = k.target ∧ (k.mode = .remote → made.transport = k.transport)

theorem Fitting.record (hs : w.memo.Sound) (h : w.Fitting) (target : String)
    (transport : LogosTransportConfig) :
    (w.record target transport (w.getClientOn target transport)).Fitting := by
  intro k client hmem
  unfold ClientWorld.record ClientWorld.getClientOn at hmem ⊢
  dsimp only at hmem ⊢
  cases hfind : qHash.find w.clients ⟨target, w.mode, transport⟩ with
  | some found =>
    rw [hfind] at hmem
    rcases List.mem_cons.1 hmem with he | hold
    · obtain ⟨rfl, rfl⟩ := Prod.mk.inj he
      obtain ⟨k', hk', heq⟩ := hs.known hfind
      obtain ⟨ht, hm, htransport⟩ := LogosAPIClientCacheKey.eq_iff.1 heq
      obtain ⟨made, hmade, htarget, hfits⟩ := h k' client hk'
      refine ⟨made, hmade, htarget.trans ht, fun hr => ?_⟩
      have hr' := hm.trans hr
      exact (hfits hr').trans (htransport hr')
    · exact h k client hold
  | none =>
    rw [hfind] at hmem
    rcases List.mem_cons.1 hmem with he | hold
    · obtain ⟨rfl, rfl⟩ := Prod.mk.inj he
      exact ⟨_, List.getElem?_concat_length, rfl, fun _ => rfl⟩
    · obtain ⟨made, hmade, hfits⟩ := h k client hold
      have hlt := (List.getElem?_eq_some_iff.1 hmade).1
      exact ⟨made, (List.getElem?_append_left hlt).trans hmade, hfits⟩

structure CacheInvariant (w : ClientWorld qHash) : Prop where
  sound : w.memo.Sound
  fitting : w.Fitting

theorem CacheInvariant.record (h : w.CacheInvariant) (target : String)
    (transport : LogosTransportConfig) :
    (w.record target transport (w.getClientOn target transport)).CacheInvariant where
  sound := by
    rw [memo_record]
    exact h.sound.ask (LogosAPIClientCacheKey.hashing_coherent f) _
  fitting := h.fitting.record h.sound target transport

theorem CacheInvariant.step (h : w.CacheInvariant) (fromUtf8 : List UInt8 → String)
    (op : ClientOp) : (w.step fromUtf8 op).CacheInvariant := by
  cases op with
  | getClient | getClientCString | getClientStdString | getClientOn => exact h.record _ _
  | setMode | setDefault | setCapabilityModuleTransport => exact ⟨h.sound, h.fitting⟩

theorem CacheInvariant.run (h : w.CacheInvariant) (fromUtf8 : List UInt8 → String)
    (ops : List ClientOp) : (w.run fromUtf8 ops).CacheInvariant := by
  induction ops generalizing w with
  | nil => exact h
  | cons op ops ih => exact ih (h.step fromUtf8 op)

theorem CacheInvariant.initial (qHash : HashMap (LogosAPIClientCacheKey.hashing f) Nat)
    (api : LogosAPI) (mode : LogosMode) (defaultTransport : LogosTransportConfig) :
    (ClientWorld.initial qHash api mode defaultTransport).CacheInvariant :=
  ⟨Memo.Sound.initial qHash, fun _ _ => nofun⟩

/-- The cache neither aliases nor duplicates. -/
structure CacheExact (w : ClientWorld qHash) : Prop where
  same_client : ∀ k client k' client', (k, client) ∈ w.calls → (k', client') ∈ w.calls →
    (client = client' ↔ k.target = k'.target ∧ k.mode = k'.mode ∧
      (k.mode = .remote → k.transport = k'.transport))
  one_each : (w.calls.map fun call => call.1.endpoint).toFinset.card = w.constructed.length
  fitting : w.Fitting
  coherent : Coherent (LogosAPIClientCacheKey.hashing f)

/-- Whatever is called and set in whatever order, two calls get the same client exactly when
they are for the same endpoint, as many clients are constructed as there are endpoints, each
call gets one that fits it, and the hash table is used within its contract. -/
theorem clients_exact (f : HashFunctions)
    (qHash : HashMap (LogosAPIClientCacheKey.hashing f) Nat) (fromUtf8 : List UInt8 → String)
    (api : LogosAPI) (mode : LogosMode) (defaultTransport : LogosTransportConfig)
    (ops : List ClientOp) :
    CacheExact ((ClientWorld.initial qHash api mode defaultTransport).run fromUtf8 ops) := by
  have h := (CacheInvariant.initial qHash api mode defaultTransport).run fromUtf8 ops
  refine ⟨?_, ?_, h.fitting, LogosAPIClientCacheKey.hashing_coherent f⟩
  · intro k client k' client' hk hk'
    exact (h.sound.same_iff hk hk').trans LogosAPIClientCacheKey.eq_iff
  · refine h.sound.card_asked LogosAPIClientCacheKey.endpoint fun a b => ?_
    exact LogosAPIClientCacheKey.eq_iff.trans LogosAPIClientCacheKey.endpoint_eq_iff.symm

end

end ClientWorld

def HashFunctions.constant : HashFunctions := ⟨fun _ => 0, fun _ => 0, fun seed _ => seed⟩

def endpointConfig (port : BitVec 16) (verifyPeer : Bool) : LogosTransportConfig :=
  ⟨0, [], port, [], [], [], verifyPeer, 0⟩

/-- In Mock mode two transports share a client; in Remote mode there is one for each. -/
theorem clients_exact_modes :
    let w := (ClientWorld.initial (chained (LogosAPIClientCacheKey.hashing .constant) Nat 0 8)
      ⟨"m", none⟩ .mock (endpointConfig 1 true)).run (fun _ => "")
      [.getClient "x", .getClientOn "x" (endpointConfig 1 false), .setMode .remote,
        .getClient "x", .getClientOn "x" (endpointConfig 1 false)]
    w.calls.map Prod.snd = [2, 1, 0, 0] ∧ w.CacheExact :=
  ⟨by decide, ClientWorld.clients_exact _ _ _ _ _ _ _⟩

end LogosPluginQt
