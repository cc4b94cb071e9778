/- FunWithDragonflyDB/Fqdn/WireLayout
   digest: Stores of either language that share a namespace and a bucket count use the same keys. -/

import FunWithDragonflyDB.Fqdn.GoStores

set_option autoImplicit false
set_option relaxedAutoImplicit false

namespace FunWithDragonflyDB.Fqdn.WireLayout

open Lib.Words
open Strings (Text StringLib goString)
open Pattern (labelsTag)
open Slots (BucketTable computeBucketTable)
open Script (Redis)
open Router (bucketedKey plainKey)
open Keys (keyText replicas)
open Writes (replicaKeys)
open GoStores

section Tags

private theorem goString_cut {c : Char} (hc : c.toNat < 128) (t u : Text) :
    goString (t ++ c :: u) = goString t ++ c :: goString u := by
  rw [Strings.goString_append, Strings.goString_cons, Strings.goString_singleton, if_pos hc]
  rfl

theorem labelsTag_goString (labels : List Text) :
    labelsTag (labels.map goString) = goString (labelsTag labels) := by
  have htld : goString "__tld__:".toList = "__tld__:".toList := Strings.goString_ascii (by simp)
  rw [labelsTag, labelsTag, ← List.map_reverse]
  rcases labels.reverse with _ | ⟨l, _ | ⟨m, ls⟩⟩
  · rfl
  · rw [List.map_singleton, Strings.goString_append, htld]
  · rw [List.map_cons, List.map_cons, goString_cut (by decide)]

theorem hashTag_goString (p : Text) :
    GoPattern.hashTag (goString p) = goString (Pattern.hashTag p) := by
  have hstar : goString p = ['*'] ↔ p = ['*'] := Strings.goString_eq_ascii (by simp)
  have hwild : ['*', '.'] <+: goString p ↔ ['*', '.'] <+: p := Strings.prefix_goString (by simp)
  unfold GoPattern.hashTag Pattern.hashTag
  by_cases h1 : p = ['*']
  · rw [if_pos h1, if_pos (hstar.mpr h1), Strings.goString_ascii (by simp)]
  · rw [if_neg h1, if_neg (mt hstar.mp h1)]
    by_cases h2 : ['*', '.'] <+: p
    · rw [if_pos h2, if_pos (hwild.mpr h2)]
      obtain ⟨rest, rfl⟩ := h2
      have hstart : goString ['*', '.'] = ['*', '.'] := Strings.goString_ascii (by simp)
      rw [Strings.goString_append, hstart]
      change labelsTag ((goString rest).splitOn '.') = goString (labelsTag (rest.splitOn '.'))
      rw [Strings.splitOn_goString (by decide), labelsTag_goString]
    · rw [if_neg h2, if_neg (mt hwild.mp h2), Strings.splitOn_goString (by decide),
        labelsTag_goString]

theorem isBucketedTag_goString (tag : Text) :
    Pattern.isBucketedTag (goString tag) = Pattern.isBucketedTag tag := by
  have hglobal : goString tag = "__global__".toList ↔ tag = "__global__".toList :=
    Strings.goString_eq_ascii (by simp)
  have htld : "__tld__:".toList <+: goString tag ↔ "__tld__:".toList <+: tag :=
    Strings.prefix_goString (by simp)
  rw [Bool.eq_iff_iff]
  simp only [Pattern.isBucketedTag, Bool.or_eq_true, decide_eq_true_eq, List.isPrefixOf_iff_prefix,
    hglobal, htld]

end Tags

section Keys

variable {ns token tag p : Text} {n port : ℤ} {i : ℕ} {table : BucketTable}

private theorem goString_numeral (k : ℕ) : goString (numeral k) = numeral k :=
  Strings.goString_ascii fun _ hc => Strings.digit_ascii (isDigit_of_mem_numeral hc)

private theorem goString_intNumeral (k : ℤ) : goString (intNumeral k) = intNumeral k := by
  refine Strings.goString_ascii fun c hc => ?_
  rcases mem_intNumeral hc with hd | rfl
  · exact Strings.digit_ascii hd
  · decide

theorem plainKey_goString : plainKey (goString ns) (goString tag) (goString p) port =
    goString (plainKey ns tag p port) := by
  have hlit : ∀ t : Text, (∀ c ∈ t, c.toNat < 128) → goString t = t := fun t ht =>
    Strings.goString_ascii ht
  simp only [Keys.plainKey_eq, Strings.goString_append, goString_intNumeral]
  rw [hlit ['r', ':', '{'] (by simp), hlit [':'] (by simp), hlit ['}', ':'] (by simp)]

theorem bucketedKey_goString (htoken : goString token = token) :
    bucketedKey (goString ns) token (goString tag) i (goString p) port =
      goString (bucketedKey ns token tag i p port) := by
  have hlit : ∀ t : Text, (∀ c ∈ t, c.toNat < 128) → goString t = t := fun t ht =>
    Strings.goString_ascii ht
  simp only [Keys.bucketedKey_eq, Strings.goString_append, goString_intNumeral, goString_numeral,
    htoken]
  rw [hlit ['r', ':'] (by simp), hlit [':', '{'] (by simp), hlit [':'] (by simp),
    hlit ['}', ':'] (by simp)]

private theorem goString_token (ht : computeBucketTable n = .ok table) (i : ℕ) :
    goString (table.tokens.getD i []) = table.tokens.getD i [] := by
  rw [List.getD_eq_getElem?_getD]
  cases hg : table.tokens[i]? with
  | none => rfl
  | some tok =>
    obtain ⟨⟨k, rfl⟩, -⟩ := (BucketTable.tableSpec_of_compute ht).2.token i tok hg
    exact goString_numeral k

theorem metaKey_goString : Router.metaKey (goString ns) = goString (Router.metaKey ns) := by
  have hstart : goString "r:\x7b".toList = "r:\x7b".toList := Strings.goString_ascii (by simp)
  have hend : goString ":__meta__\x7d:bucketing".toList = ":__meta__\x7d:bucketing".toList :=
    Strings.goString_ascii (by simp)
  simp only [Router.metaKey, Strings.goString_append, hstart, hend]

theorem metaField_goString : goString Router.metaField = Router.metaField := by
  unfold Router.metaField
  exact Strings.goString_ascii (by simp)

theorem replicas_goString (n : ℤ) (p : Text) : replicas n (goString p) = replicas n p := by
  have htag : Pattern.hashTag (goString p) = goString (Pattern.hashTag p) := hashTag_goString p
  simp only [replicas, htag, isBucketedTag_goString]

theorem keyText_goString (ht : computeBucketTable n = .ok table) :
    keyText ⟨goString ns, n⟩ table (goString p) port i = goString (keyText ⟨ns, n⟩ table p port i) := by
  have htag : Pattern.hashTag (goString p) = goString (Pattern.hashTag p) := hashTag_goString p
  simp only [keyText, htag, isBucketedTag_goString]
  split_ifs
  · exact bucketedKey_goString (goString_token ht i)
  · exact plainKey_goString

theorem replicaKeys_goString (ht : computeBucketTable n = .ok table) :
    replicaKeys ⟨goString ns, n⟩ table (goString p) port =
      (replicaKeys ⟨ns, n⟩ table p port).map goString := by
  simp only [replicaKeys, replicas_goString, List.map_map]
  exact List.map_congr_left fun i _ => keyText_goString ht

/-- The three implementations share one wire layout: checksums and slots, token tables, and the
keys of every pattern. -/
theorem wire_layout_shared :
    (∀ data : List UInt8, (GoSlots.crc16 data).toNat = Slots.crc16 data ∧
      (ServiceSlots.crc16 data).toNat = Slots.crc16 data ∧
      GoSlots.slot data = Slots.slot data ∧ ServiceSlots.slot data = Slots.slot data) ∧
    (∀ key : Text, GoSlots.keySlot key = ServiceSlots.keySlot key) ∧
    (∀ key : Text, GoSlots.keySlot (goString key) = Slots.keySlot key) ∧
    (∀ n : ℤ, (GoSlots.computeBucketTable n).toOption = (computeBucketTable n).toOption ∧
      (ServiceSlots.computeBucketTable n).toOption = (computeBucketTable n).toOption) ∧
    ∀ (lib : StringLib) (ns : Text) (n : ℤ) (redis redis' : Redis) (client : GoRouter.RuleStore)
      (service : ServiceStore.NoScriptRuleStore) (p : Text) (port : ℤ), 1 ≤ n →
      GoRouter.RuleStore.newRuleStore lib (goString ns) n redis = .ok client →
      ServiceStore.NoScriptRuleStore.newNoScriptRuleStore lib (goString ns) n redis' = .ok service →
      ∃ keys, (⟨ns, n⟩ : Router.RuleStore).keysForPattern p port = .ok keys ∧
        client.keysForPattern (goString p) port = .ok (keys.map goString) ∧
        service.keysForPattern (goString p) port = .ok (keys.map goString) := by
  refine ⟨fun data => ⟨SlotParity.crc16_toNat data, SlotParity.crc16_toNat data,
      SlotParity.goSlot_eq data, SlotParity.serviceSlot_eq data⟩, fun key => ?_, fun key => ?_,
    fun n => ⟨SlotParity.goTable_eq n, SlotParity.serviceTable_eq n⟩, ?_⟩
  · rw [SlotParity.goKeySlot_eq, SlotParity.serviceKeySlot_eq]
  · rw [SlotParity.goKeySlot_eq, SlotParity.keySlot_goString]
  · intro lib ns n redis redis' client service p port hn hclient hservice
    obtain ⟨table, ht⟩ := table_of_service hn hservice
    refine ⟨replicaKeys ⟨ns, n⟩ table p port, Writes.keysForPattern_ok ht p port, ?_, ?_⟩
    · rw [eq_of_newRuleStore ht hclient, benchmarkKeys_ok ht, replicaKeys_goString ht]
    · rw [eq_of_newNoScriptRuleStore ht hservice, serviceKeys_ok ht, replicaKeys_goString ht]

/-- The keys of a pattern whose letters are not all ASCII, for stores over two buckets. -/
theorem accented_pattern_shared :
    ∃ keys, (⟨"bench".toList, 2⟩ : Router.RuleStore).keysForPattern "*.é.com".toList 443 =
        .ok keys ∧
      (benchmarkStore (goString "bench".toList) 2 Slots.twoBuckets).keysForPattern
        (goString "*.é.com".toList) 443 = .ok (keys.map goString) ∧
      (serviceStore (goString "bench".toList) 2 Slots.twoBuckets).keysForPattern
        (goString "*.é.com".toList) 443 = .ok (keys.map goString) :=
  wire_layout_shared.2.2.2.2 Ascii.goAscii "bench".toList 2 (fun _ _ => none) (fun _ _ => none)
    _ _ "*.é.com".toList 443 (by decide)
    (newRuleStore_unclaimed _ _ _ Slots.compute_twoBuckets rfl)
    (newNoScriptRuleStore_unclaimed _ _ _ Slots.compute_twoBuckets rfl)

end Keys

end FunWithDragonflyDB.Fqdn.WireLayout
