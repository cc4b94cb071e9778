/- FunWithDragonflyDB/Fqdn/Grpc
   digest: The gRPC route to the router service, and exactly when it answers as the store does. -/

import FunWithDragonflyDB.Fqdn.Ascii
import FunWithDragonflyDB.Fqdn.GoLookup
import FunWithDragonflyDB.Fqdn.Reference

set_option autoImplicit false
set_option relaxedAutoImplicit false

namespace FunWithDragonflyDB.Fqdn.Grpc

open Lib.Words Lib.LeastScan Lib.Outcome
open Strings (Text StringLib)
open Pattern (Candidate FieldCandidate ancestorWalk)
open Candidates Script Reference GoStores
open GoPattern (GoError MatchMode singleLevel multiLevel normalizeFqdn candidates fieldCandidates)
open GoRouter (Match validatePort)
open ServiceStore (NoScriptRuleStore)
open GoLookup

/-- The mode on the wire: an open enumeration of 32 bits. -/
abbrev PbMatchMode := Int32

def pbSingleLevel : PbMatchMode := 0
def pbMultiLevel : PbMatchMode := 1

structure LookupRequest where
  fqdn1 : Text
  port : Int32
  fqdn2 : Text
  mode : PbMatchMode

structure LookupResponse where
  hit : Bool
  ruleId : Text
  fqdn1Pattern : Text
  fqdn2Pattern : Text
  rank1 : Int32
  rank2 : Int32

abbrev RouterClient := LookupRequest → Except GoError LookupResponse

/-- What the server answers with. -/
def respond : Option Match → LookupResponse
  | none => ⟨false, [], [], [], 0, 0⟩
  | some m => ⟨true, m.ruleId, m.fqdn1Pattern, m.fqdn2Pattern, Int32.ofInt m.rank1,
      Int32.ofInt m.rank2⟩

/-- `Server.Lookup`. -/
def serverLookup (lib : StringLib) (store : NoScriptRuleStore) (redis : Redis)
    (req : LookupRequest) : Except GoError LookupResponse := do
  let mode := if req.mode = pbMultiLevel then multiLevel else singleLevel
  let found ← store.lookup lib redis req.fqdn1 req.port.toInt req.fqdn2 mode
  pure (respond found)

structure GRPCLookuper where
  clients : List RouterClient
  next : UInt64

namespace GRPCLookuper

/-- `int(l.next.Add(1)-1) % len(l.clients)`, for at least one client. -/
def index (l : GRPCLookuper) : ℤ := l.next.toInt64.toInt.tmod l.clients.length

/-- The client whose turn it is. -/
def pick (l : GRPCLookuper) : Except GoError RouterClient :=
  if l.clients = [] then .error (.panic "runtime error: integer divide by zero".toList)
  else
    match if l.index < 0 then none else l.clients[l.index.toNat]? with
    | some client => .ok client
    | none => .error (.panic ("runtime error: index out of range [".toList ++ intNumeral l.index ++
        "]".toList))

/-- What a call makes of the answer. -/
def decode (port : ℤ) (resp : LookupResponse) : Option Match :=
  if resp.hit then
    some ⟨resp.ruleId, resp.fqdn1Pattern, port, resp.fqdn2Pattern, resp.rank1.toInt,
      resp.rank2.toInt⟩
  else none

def ask (client : RouterClient) (fqdn1 : Text) (port : ℤ) (fqdn2 : Text) (mode : MatchMode) :
    Except GoError (Option Match) := do
  let pbMode := if mode = multiLevel then pbMultiLevel else pbSingleLevel
  let resp ← client ⟨fqdn1, Int32.ofInt port, fqdn2, pbMode⟩
  pure (decode port resp)

def lookup (l : GRPCLookuper) (fqdn1 : Text) (port : ℤ) (fqdn2 : Text) (mode : MatchMode) :
    GRPCLookuper × Except GoError (Option Match) :=
  ({ l with next := l.next + 1 }, do
    let client ← l.pick
    ask client fqdn1 port fqdn2 mode)

/-- The counter points at a client. -/
def Ready (l : GRPCLookuper) : Prop := l.clients ≠ [] ∧ 0 ≤ l.index

end GRPCLookuper

/-- The transport hands on every response unchanged, and an error as some error. -/
def Delivers (server client : RouterClient) : Prop :=
  ∀ req, (∃ resp, server req = .ok resp ∧ client req = .ok resp) ∨
    ∃ e message, server req = .error e ∧ client req = .error (.error message)

/-- The transport of a client connected to a server. -/
def connect (server : RouterClient) : RouterClient := fun req =>
  match server req with
  | .ok resp => .ok resp
  | .error e =>
    .error (.error ("rpc error: code = Unknown desc = ".toList ++ GoRouter.GoError.text e))

theorem connect_delivers (server : RouterClient) : Delivers server (connect server) := by
  intro req
  unfold connect
  cases server req with
  | ok resp => exact .inl ⟨resp, rfl, rfl⟩
  | error e => exact .inr ⟨e, _, rfl, rfl⟩

/-- The call ends with an error value, which a panic is not. -/
def Errs {α : Type} (x : Except GoError α) : Prop := ∃ e, x = .error e ∧ ∀ m, e ≠ .panic m

def SameOutcome {α : Type} (x y : Except GoError α) : Prop :=
  Errs x ∧ Errs y ∨ ∃ a, x = .ok a ∧ y = .ok a

variable {lib : StringLib} {ns fqdn1 fqdn2 : Text} {n port : ℤ} {mode : MatchMode}
  {store : NoScriptRuleStore} {redis : Redis} {l : GRPCLookuper} {client : RouterClient}

section Turn

theorem pick_ok (h : l.Ready) : ∃ client ∈ l.clients, l.pick = .ok client := by
  have hlen : 0 < l.clients.length := List.length_pos_iff.mpr h.1
  have hlt : l.index < l.clients.length := Int.tmod_lt_of_pos _ (by omega)
  have hget : l.index.toNat < l.clients.length := by have := h.2; omega
  refine ⟨l.clients[l.index.toNat], List.getElem_mem hget, ?_⟩
  have hneg : ¬l.index < 0 := not_lt.mpr h.2
  unfold GRPCLookuper.pick
  rw [if_neg h.1, if_neg hneg, List.getElem?_eq_getElem hget]

theorem pick_panic (h : ¬l.Ready) : ∃ m, l.pick = .error (.panic m) := by
  unfold GRPCLookuper.pick
  by_cases hc : l.clients = []
  · rw [if_pos hc]
    exact ⟨_, rfl⟩
  · have hneg : l.index < 0 := by
      by_contra hn
      exact h ⟨hc, not_lt.mp hn⟩
    rw [if_neg hc, if_pos hneg]
    exact ⟨_, rfl⟩

end Turn

section Trip

theorem lookup_mode (port : ℤ) (mode : MatchMode) :
    store.lookup lib redis fqdn1 port fqdn2
        (if (if mode = multiLevel then pbMultiLevel else pbSingleLevel) = pbMultiLevel then
          multiLevel else singleLevel) =
      store.lookup lib redis fqdn1 port fqdn2 mode := by
  by_cases hm : mode = multiLevel
  · simp [hm]
  · have hne : pbSingleLevel ≠ pbMultiLevel := by decide
    have hsm : ¬singleLevel = multiLevel := by decide
    simp only [hm, if_false, hne, NoScriptRuleStore.lookup, NoScriptRuleStore.lookupAt, candidates,
      fieldCandidates, hsm]

theorem int32_roundtrip {x : ℤ} (hlo : 0 ≤ x) (hhi : x < 65536) : (Int32.ofInt x).toInt = x := by
  rw [Int32.toInt_ofInt]
  exact Int.bmod_eq_of_le_mul_two (by simp only [Int32.size]; omega) (by simp only [Int32.size]; omega)

theorem decode_respond {found : Option Match}
    (h : ∀ m ∈ found, m.port = port ∧ (0 ≤ m.rank1 ∧ m.rank1 < 65536) ∧
      0 ≤ m.rank2 ∧ m.rank2 < 65536) : GRPCLookuper.decode port (respond found) = found := by
  cases found with
  | none => rfl
  | some m =>
    obtain ⟨hp, h1, h2⟩ := h m rfl
    simp only [GRPCLookuper.decode, respond, if_true, int32_roundtrip h1.1 h1.2,
      int32_roundtrip h2.1 h2.2, ← hp]

/-- A call has the outcome of the store's lookup for the truncated port. -/
theorem ask_outcome (hd : Delivers (serverLookup lib store redis) client) (fqdn1 : Text) (port : ℤ)
    (fqdn2 : Text) (mode : MatchMode) :
    (∃ found, store.lookup lib redis fqdn1 (Int32.ofInt port).toInt fqdn2 mode = .ok found ∧
      GRPCLookuper.ask client fqdn1 port fqdn2 mode =
        .ok (GRPCLookuper.decode port (respond found))) ∨
    ∃ e message, store.lookup lib redis fqdn1 (Int32.ofInt port).toInt fqdn2 mode = .error e ∧
      GRPCLookuper.ask client fqdn1 port fqdn2 mode = .error (.error message) := by
  have hserver : ∀ found : Except GoError (Option Match),
      store.lookup lib redis fqdn1 (Int32.ofInt port).toInt fqdn2 mode = found →
      serverLookup lib store redis ⟨fqdn1, Int32.ofInt port, fqdn2,
        if mode = multiLevel then pbMultiLevel else pbSingleLevel⟩ = found.map respond := by
    rintro found rfl
    rw [serverLookup, lookup_mode]
    cases store.lookup lib redis fqdn1 (Int32.ofInt port).toInt fqdn2 mode <;> rfl
  rcases hd ⟨fqdn1, Int32.ofInt port, fqdn2,
    if mode = multiLevel then pbMultiLevel else pbSingleLevel⟩ with ⟨resp, hs, hc⟩ | ⟨e, m, hs, hc⟩
  · left
    cases hl : store.lookup lib redis fqdn1 (Int32.ofInt port).toInt fqdn2 mode with
    | error e =>
      rw [hserver _ hl] at hs
      cases hs
    | ok found =>
      rw [hserver _ hl] at hs
      obtain rfl := Except.ok.inj hs
      refine ⟨found, rfl, ?_⟩
      rw [GRPCLookuper.ask, hc]
      rfl
  · right
    cases hl : store.lookup lib redis fqdn1 (Int32.ofInt port).toInt fqdn2 mode with
    | ok found =>
      rw [hserver _ hl] at hs
      cases hs
    | error e' =>
      refine ⟨e', m, rfl, ?_⟩
      rw [GRPCLookuper.ask, hc]
      rfl

end Trip

section Direct

/-- Both names are accepted. -/
def Accepted (lib : StringLib) (fqdn1 fqdn2 : Text) : Prop :=
  ∃ name1 name2, normalizeFqdn lib fqdn1 = .ok name1 ∧ normalizeFqdn lib fqdn2 = .ok name2

theorem normalize_error {fqdn : Text} {e : GoError} (h : normalizeFqdn lib fqdn = .error e) :
    ∃ message, e = .invalidFqdn message := by
  unfold normalizeFqdn at h
  dsimp only at h
  split_ifs at h <;> exact ⟨_, (Except.error.inj h).symm⟩

theorem admits_rank_lt {name p : Text} {multi : Bool} {rank : ℕ} (hc : Pattern.Clean name)
    (h : Admits name multi p rank) : rank < 256 := by
  have hn := hc.count
  simp only [Pattern.maxLabels] at hn
  cases h with
  | exact => omega
  | wildcard h1 hk hm => omega
  | global => decide

theorem candidate_rank_lt {name : Text} {c : Candidate} (hc : Pattern.Clean name)
    (h : c ∈ candidates name mode n) : c.rank < 256 := by
  obtain ⟨p, rank, ha, rfl⟩ := (mem_ancestorWalk hc).mp h
  exact admits_rank_lt hc ha

theorem field_rank_lt {name : Text} {f : FieldCandidate} (hc : Pattern.Clean name)
    (h : f ∈ fieldCandidates name mode) : f.rank < 256 := by
  obtain ⟨p, rank, ha, rfl⟩ := (mem_ancestorWalk hc).mp h
  exact admits_rank_lt hc ha

theorem lookup_errs (h : ¬(Accepted lib fqdn1 fqdn2 ∧ PortOk port)) :
    Errs (store.lookup lib redis fqdn1 port fqdn2 mode) := by
  have hinvalid : ∀ message m, GoError.invalidFqdn message ≠ .panic m := by
    intro message m
    exact GoError.noConfusion
  rw [NoScriptRuleStore.lookup, NoScriptRuleStore.lookupAt]
  cases h1 : normalizeFqdn lib fqdn1 with
  | error e =>
    obtain ⟨message, rfl⟩ := normalize_error h1
    exact ⟨_, rfl, hinvalid message⟩
  | ok name1 =>
    cases h2 : normalizeFqdn lib fqdn2 with
    | error e =>
      obtain ⟨message, rfl⟩ := normalize_error h2
      exact ⟨_, rfl, hinvalid message⟩
    | ok name2 =>
      have hp : port ≤ 0 ∨ port ≥ 65536 := by
        by_contra hp
        exact h ⟨⟨name1, name2, h1, h2⟩, by omega⟩
      have hbad : validatePort port = .error _ := if_pos hp
      rw [hbad]
      exact ⟨_, rfl, hinvalid _⟩

theorem lookup_ok (ns : Text) (mode : MatchMode) {table : Slots.BucketTable}
    (ht : Slots.computeBucketTable n = .ok table) (hv : ∀ k f v, redis k f = some v → v ≠ [])
    (h : Accepted lib fqdn1 fqdn2) (hp : PortOk port) :
    ∃ found, (serviceStore ns n table).lookup lib redis fqdn1 port fqdn2 mode = .ok found ∧
      ∀ m ∈ found, m.port = port ∧ (0 ≤ m.rank1 ∧ m.rank1 < 65536) ∧
        0 ≤ m.rank2 ∧ m.rank2 < 65536 := by
  obtain ⟨name1, name2, h1, h2⟩ := h
  refine ⟨_, service_lookupAt_ok ht h1 h2 hp fun _ => hv, ?_⟩
  intro m hm
  obtain ⟨w, hw, rfl⟩ := Option.map_eq_some_iff.mp hm
  obtain ⟨⟨⟨c, i⟩, f, r⟩, hscan, rfl⟩ := Option.map_eq_some_iff.mp hw
  obtain ⟨hc, hf, -⟩ := scan_mem hscan
  have hrank1 : c.rank < 256 :=
    candidate_rank_lt (clean_of_normalize h1) (List.fst_mem_of_mem_zipIdx hc)
  have hrank2 := field_rank_lt (clean_of_normalize h2) hf
  simp only [goMatch, true_and]
  omega

end Direct

/-- The gRPC route has the outcome of the direct call exactly if the counter points at a client and
truncation to 32 bits does not turn a port that is out of range into a legal one, except that a
rejected name errs on both ways. -/
theorem grpc_faithful_iff {redis0 : Redis} (hn : 1 ≤ n)
    (hs : NoScriptRuleStore.newNoScriptRuleStore lib ns n redis0 = .ok store)
    (hv : ∀ k f v, redis k f = some v → v ≠ [])
    (hl : ∀ client ∈ l.clients, Delivers (serverLookup lib store redis) client)
    (fqdn1 : Text) (port : ℤ) (fqdn2 : Text) (mode : MatchMode) :
    SameOutcome (store.lookup lib redis fqdn1 port fqdn2 mode)
        (l.lookup fqdn1 port fqdn2 mode).2 ↔
      l.Ready ∧ (Accepted lib fqdn1 fqdn2 → PortOk (Int32.ofInt port).toInt → PortOk port) := by
  obtain ⟨table, ht⟩ := table_of_service hn hs
  obtain rfl := eq_of_newNoScriptRuleStore ht hs
  have hok_errs : ∀ {a : Option Match} {x : Except GoError (Option Match)}, x = .ok a → ¬Errs x := by
    rintro a x rfl ⟨e, he, -⟩
    cases he
  by_cases hr : l.Ready
  · obtain ⟨client, hc, hpick⟩ := pick_ok hr
    have hresult : (l.lookup fqdn1 port fqdn2 mode).2 =
        GRPCLookuper.ask client fqdn1 port fqdn2 mode := by
      rw [GRPCLookuper.lookup, hpick]
      rfl
    have hask := ask_outcome (hl client hc) fqdn1 port fqdn2 mode
    rw [hresult, and_iff_right hr]
    by_cases hp : Accepted lib fqdn1 fqdn2 ∧ PortOk port
    · obtain ⟨found, hfound, hfit⟩ := lookup_ok ns mode ht hv hp.1 hp.2
      have hport := int32_roundtrip hp.2.1.le hp.2.2
      refine iff_of_true (.inr ⟨found, hfound, ?_⟩) fun _ _ => hp.2
      rw [hport, hfound] at hask
      rcases hask with ⟨found', he, ha⟩ | ⟨e, m, he, -⟩
      · obtain rfl := Except.ok.inj he
        rw [ha, decode_respond hfit]
      · cases he
    · have herrs : Errs ((serviceStore ns n table).lookup lib redis fqdn1 port fqdn2 mode) :=
        lookup_errs hp
      by_cases hw : Accepted lib fqdn1 fqdn2 ∧ PortOk (Int32.ofInt port).toInt
      · -- the truncated port is legal, so the route answers where the direct call errs
        obtain ⟨found, hfound, -⟩ := lookup_ok ns mode ht hv hw.1 hw.2
        refine iff_of_false ?_ fun h => hp ⟨hw.1, h hw.1 hw.2⟩
        rintro (⟨-, hbad⟩ | ⟨a, ha, -⟩)
        · rcases hask with ⟨found', -, ha⟩ | ⟨e, m, he, -⟩
          · exact hok_errs ha hbad
          · rw [hfound] at he
            cases he
        · exact hok_errs ha herrs
      · refine iff_of_true (.inl ⟨herrs, ?_⟩) fun ha hlegal => absurd ⟨ha, hlegal⟩ hw
        rcases hask with ⟨found, hfound, -⟩ | ⟨e, m, -, ha⟩
        · exact absurd (lookup_errs hw) (hok_errs hfound)
        · exact ⟨_, ha, fun _ => GoError.noConfusion⟩
  · obtain ⟨m, hpanic⟩ := pick_panic hr
    have hresult : (l.lookup fqdn1 port fqdn2 mode).2 = .error (.panic m) := by
      rw [GRPCLookuper.lookup, hpanic]
      rfl
    refine iff_of_false ?_ fun h => hr h.1
    rw [hresult]
    rintro (⟨-, e, he, hne⟩ | ⟨a, -, ha⟩)
    · exact hne m (Except.error.inj he).symm
    · cases ha

section Wide

/-- A store over two buckets, read by one router service. -/
def benchService : NoScriptRuleStore := serviceStore "bench".toList 2 Slots.twoBuckets

def benchLookuper (redis : Redis) : GRPCLookuper :=
  ⟨[connect (serverLookup Ascii.goAscii benchService redis)], 0⟩

theorem benchService_new :
    NoScriptRuleStore.newNoScriptRuleStore Ascii.goAscii "bench".toList 2 (fun _ _ => none) =
      .ok benchService :=
  newNoScriptRuleStore_unclaimed _ _ _ Slots.compute_twoBuckets rfl

theorem benchLookuper_delivers (redis : Redis) : ∀ client ∈ (benchLookuper redis).clients,
    Delivers (serverLookup Ascii.goAscii benchService redis) client := by
  intro client hc
  obtain rfl := List.mem_singleton.mp hc
  exact connect_delivers _

theorem benchLookuper_ready (redis : Redis) : (benchLookuper redis).Ready := by
  refine ⟨by simp [benchLookuper], ?_⟩
  show 0 ≤ (0 : UInt64).toInt64.toInt.tmod (1 : ℕ)
  decide

/-- The store after `*.a.com` was put for every second name. -/
private def zoneRedis : Redis :=
  Lib.HashStore.Command.apply (.hset "r:{bench:a.com}:*.a.com:443".toList ['*'] "Bx".toList)
    fun _ _ => none

private theorem zoneRedis_nonempty (k f v : Text) (h : zoneRedis k f = some v) : v ≠ [] := by
  have hwritten : v = "Bx".toList := by
    simp only [zoneRedis, Lib.HashStore.Command.apply] at h
    split_ifs at h
    exact (Option.some.inj h).symm
  simp [hwritten]

/-- A hit at a port that fits comes back with its patterns and ranks on both ways. -/
theorem legal_port_agrees :
    benchService.lookup Ascii.goAscii zoneRedis "shop.a.com".toList 443 "b.com".toList multiLevel =
        .ok (some ⟨['x'], "*.a.com".toList, 443, ['*'], 1, 255⟩) ∧
      SameOutcome (benchService.lookup Ascii.goAscii zoneRedis "shop.a.com".toList 443
          "b.com".toList multiLevel)
        ((benchLookuper zoneRedis).lookup "shop.a.com".toList 443 "b.com".toList multiLevel).2 :=
  ⟨by decide +kernel,
    (grpc_faithful_iff (by decide) benchService_new zoneRedis_nonempty
      (benchLookuper_delivers _) _ _ _ _).mpr ⟨benchLookuper_ready _, fun _ _ => by decide⟩⟩

/-- A port of 2^32 + 443 is out of range for the store and 443 on the wire. -/
theorem wide_port_answers :
    ¬∀ (lib : StringLib) (ns : Text) (n : ℤ) (store : NoScriptRuleStore) (redis0 redis : Redis)
      (l : GRPCLookuper), 1 ≤ n →
      NoScriptRuleStore.newNoScriptRuleStore lib ns n redis0 = .ok store →
      (∀ k f v, redis k f = some v → v ≠ []) →
      (∀ client ∈ l.clients, Delivers (serverLookup lib store redis) client) → l.Ready →
      ∀ fqdn1 port fqdn2 mode, SameOutcome (store.lookup lib redis fqdn1 port fqdn2 mode)
        (l.lookup fqdn1 port fqdn2 mode).2 := by
  intro h
  have hsame := h Ascii.goAscii "bench".toList 2 benchService (fun _ _ => none) (fun _ _ => none)
    (benchLookuper fun _ _ => none) (by decide) benchService_new (by simp)
    (benchLookuper_delivers _) (benchLookuper_ready _) "a.com".toList (2 ^ 32 + 443)
    "b.com".toList singleLevel
  have hroute : ((benchLookuper fun _ _ => none).lookup "a.com".toList (2 ^ 32 + 443)
      "b.com".toList singleLevel).2 = .ok none := by decide +kernel
  have hdirect : benchService.lookup Ascii.goAscii (fun _ _ => none) "a.com".toList (2 ^ 32 + 443)
      "b.com".toList singleLevel ≠ .ok none := by decide +kernel
  rw [hroute] at hsame
  rcases hsame with ⟨-, e, he, -⟩ | ⟨a, ha, hb⟩
  · cases he
  · obtain rfl := Except.ok.inj hb
    exact hdirect ha

end Wide

end FunWithDragonflyDB.Fqdn.Grpc
