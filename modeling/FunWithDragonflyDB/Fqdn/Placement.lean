/- FunWithDragonflyDB/Fqdn/Placement
   digest: A lookup declares at most three groups of keys, each of them in one cluster slot. -/

import FunWithDragonflyDB.Lib.Outcome
import FunWithDragonflyDB.Fqdn.Ascii
import FunWithDragonflyDB.Fqdn.Candidates
import FunWithDragonflyDB.Fqdn.Keys

set_option autoImplicit false
set_option relaxedAutoImplicit false

namespace FunWithDragonflyDB.Fqdn.Placement

open Lib.Words Lib.LeastScan Lib.FloorPartition Lib.Outcome
open Strings (Text StringLib utf8)
open Pattern Candidates Slots BucketTable Router Keys

section KeySlots

variable {ns token tag pattern : Text} {i : ℕ} {port : ℤ}

theorem keySlot_bucketedKey (hns : '{' ∉ ns) (htoken : '}' ∉ token) (hne : token ≠ []) :
    keySlot (bucketedKey ns token tag i pattern port) = slot (utf8 token) := by
  have hpre : '{' ∉ ['r', ':'] ++ ns ++ [':'] := by simp [hns]
  have hkey : bucketedKey ns token tag i pattern port = (['r', ':'] ++ ns ++ [':']) ++
      '{' :: (token ++ '}' :: (':' :: (tag ++ [':'] ++ numeral i ++ [':'] ++ pattern ++ [':'] ++
        intNumeral port))) := by
    rw [bucketedKey_eq]
    simp only [List.append_assoc, List.cons_append, List.nil_append]
  rw [keySlot_eq, hkey, hashSpan_closed hpre htoken, if_neg hne]
  rfl

/-- Only the namespace and the tag place an unbucketed key: its first braced span ends at a brace
of the tag or right after it. -/
theorem keySlot_plainKey (hns : '}' ∉ ns) (tag : Text) :
    ∃ content, ∀ pattern port, keySlot (plainKey ns tag pattern port) = slot (utf8 content) := by
  obtain ⟨content, rest, hsplit, hcontent⟩ :=
    List.eq_append_cons_of_mem (show '}' ∈ ns ++ ':' :: (tag ++ ['}']) by simp)
  have hne : content ≠ [] := by
    rintro rfl
    cases ns with
    | nil => simp at hsplit
    | cons c ns =>
      simp only [List.cons_append, List.nil_append, List.cons.injEq] at hsplit
      exact hns (by simp [hsplit.1])
  refine ⟨content, fun pattern port => ?_⟩
  have hkey : plainKey ns tag pattern port = ['r', ':'] ++
      '{' :: (content ++ '}' :: (rest ++ [':'] ++ pattern ++ [':'] ++ intNumeral port)) := by
    have hbody : plainKey ns tag pattern port = ['r', ':'] ++ '{' ::
        ((ns ++ ':' :: (tag ++ ['}'])) ++ ([':'] ++ pattern ++ [':'] ++ intNumeral port)) := by
      rw [plainKey_eq]
      simp only [List.append_assoc, List.cons_append, List.nil_append]
    rw [hbody, hsplit]
    simp only [List.append_assoc, List.cons_append, List.nil_append]
  rw [keySlot_eq, hkey, hashSpan_closed (by decide) hcontent, if_neg hne]
  rfl

end KeySlots

section Groups

variable {s : RuleStore} {table : BucketTable}

theorem bucketIndex_lt (name : Text) {numBuckets : ℤ} (h : 1 < numBuckets) :
    bucketIndex name numBuckets < numBuckets.toNat := by
  rw [bucketIndex, if_pos h]
  exact Nat.mod_lt _ (by omega)

theorem walk_shape {name : Text} {b : ℕ} {multi : Bool} {c : Candidate}
    (hc : c ∈ ancestorWalk (makeCandidate b) name multi) :
    c.tag = hashTag c.pattern ∧ c.bucketIndex = b := by
  simp only [ancestorWalk, List.mem_append, List.mem_singleton] at hc
  rcases hc with ((rfl | hc) | hc) | rfl
  · exact ⟨rfl, rfl⟩
  · split_ifs at hc
    · rw [List.mem_singleton] at hc
      subst hc
      exact ⟨rfl, rfl⟩
    · simp at hc
  · split_ifs at hc
    · obtain ⟨k, -, rfl⟩ := List.mem_map.mp hc
      exact ⟨rfl, rfl⟩
    · simp at hc
  · exact ⟨rfl, rfl⟩

theorem candidate_shape {name : Text} {mode : MatchMode} {numBuckets : ℤ} {c : Candidate}
    (hc : c ∈ candidates name mode numBuckets) :
    c.tag = hashTag c.pattern ∧ c.bucketIndex = bucketIndex name numBuckets :=
  walk_shape hc

theorem walk_runs {name : Text} (hc : Clean name) (b : ℕ) (multi : Bool) :
    Runs (ancestorWalk (makeCandidate b) name multi)
      (groupBy Candidate.tag (ancestorWalk (makeCandidate b) name multi)) := by
  obtain ⟨runs, hruns⟩ := candidates_runs hc b multi
  have hg : groupBy Candidate.tag (ancestorWalk (makeCandidate b) name multi) = runs := by
    rw [hruns.flat]
    exact groupBy_runs hruns.keyed hruns.distinct
  rw [hg]
  exact hruns

theorem groups_runs {name : Text} (hc : Clean name) (mode : MatchMode) (numBuckets : ℤ) :
    Runs (candidates name mode numBuckets)
      (groupBy Candidate.tag (candidates name mode numBuckets)) :=
  walk_runs hc _ _

/-- The key that a candidate probes is one of its pattern's replicas. -/
theorem walk_replica (s : RuleStore) (table : BucketTable) {name : Text} {b : ℕ} {multi : Bool}
    (hb : 1 < s.numBuckets → b < s.numBuckets.toNat) {c : Candidate}
    (hc : c ∈ ancestorWalk (makeCandidate b) name multi) (port : ℤ) :
    ∃ i < replicas s.numBuckets c.pattern,
      keyText s table c.pattern port c.bucketIndex = keyText s table c.pattern port i := by
  obtain ⟨-, hidx⟩ := walk_shape hc
  by_cases hbucketed : isBucketedTag (hashTag c.pattern) ∧ 1 < s.numBuckets
  · exact ⟨c.bucketIndex, by rw [replicas, if_pos hbucketed, hidx]; exact hb hbucketed.2, rfl⟩
  · -- An unbucketed key does not mention the bucket.
    refine ⟨0, ?_, by rw [keyText, keyText, if_neg hbucketed, if_neg hbucketed]⟩
    rw [replicas, if_neg hbucketed]
    exact Nat.one_pos

theorem groupKeys_ok (ht : computeBucketTable s.numBuckets = .ok table) {name : Text}
    (hc : Clean name) {mode : MatchMode} (port : ℤ) {g : Text × List Candidate}
    (hg : g ∈ groupBy Candidate.tag (candidates name mode s.numBuckets)) :
    s.groupKeys port g.1 g.2 =
      .ok (g.2.map fun c => keyText s table c.pattern port c.bucketIndex) := by
  have hruns := groups_runs hc mode s.numBuckets
  refine mapM_ok fun c hcg => ?_
  have hmem : c ∈ candidates name mode s.numBuckets :=
    hruns.flat ▸ List.mem_flatMap.mpr ⟨g, hg, hcg⟩
  obtain ⟨htag, hidx⟩ := candidate_shape hmem
  rw [← (hruns.keyed g hg).2 c hcg, htag]
  exact key_eq_keyText ht fun hN => hidx ▸ bucketIndex_lt name hN

/-- Every lookup is cluster-safe: its candidates fall into at most three contiguous groups, each
group's keys share a slot, and a bucketed group's slot lies in the share of its bucket. -/
theorem lookups_cluster_safe {lib : StringLib} {fqdn name : Text}
    (ht : computeBucketTable s.numBuckets = .ok table)
    (hns : '{' ∉ s.nameSpace ∧ '}' ∉ s.nameSpace) (hname : normalizeFqdn lib fqdn = .ok name)
    (port : ℤ) (mode : MatchMode) :
    (groupBy Candidate.tag (candidates name mode s.numBuckets)).length ≤ 3 ∧
    (groupBy Candidate.tag (candidates name mode s.numBuckets)).flatMap Prod.snd =
      candidates name mode s.numBuckets ∧
    (∀ g ∈ groupBy Candidate.tag (candidates name mode s.numBuckets),
      ∃ keys, s.groupKeys port g.1 g.2 = .ok keys ∧
        (∀ k ∈ keys, ∀ k' ∈ keys, keySlot k = keySlot k') ∧
        (1 < s.numBuckets → isBucketedTag g.1 → ∀ k ∈ keys,
          (slotRange (bucketIndex name s.numBuckets) s.numBuckets).1 ≤ keySlot k ∧
          keySlot k < (slotRange (bucketIndex name s.numBuckets) s.numBuckets).2)) ∧
    (1 < s.numBuckets →
      bucketIndex name s.numBuckets = crc32 (utf8 name) % s.numBuckets.toNat ∧
      bucketIndex name s.numBuckets < s.numBuckets.toNat ∧
      ∃ token, table.token (bucketIndex name s.numBuckets) = .ok token) := by
  have hc := clean_of_normalize hname
  have hruns := groups_runs hc mode s.numBuckets
  have hspec := (tableSpec_of_compute ht).2
  refine ⟨hruns.few, hruns.flat.symm, fun g hg => ⟨_, groupKeys_ok ht hc port hg, ?_⟩, fun hN => ?_⟩
  · have hshape : ∀ c ∈ g.2, hashTag c.pattern = g.1 ∧
        c.bucketIndex = bucketIndex name s.numBuckets := by
      intro c hcg
      have hmem : c ∈ candidates name mode s.numBuckets :=
        hruns.flat ▸ List.mem_flatMap.mpr ⟨g, hg, hcg⟩
      obtain ⟨htag, hidx⟩ := candidate_shape hmem
      exact ⟨htag.symm.trans ((hruns.keyed g hg).2 c hcg), hidx⟩
    by_cases hb : isBucketedTag g.1 ∧ 1 < s.numBuckets
    · -- All keys of the group carry the token of the name's bucket.
      obtain ⟨token, -, htok⟩ := hspec.token_ok (bucketIndex_lt name hb.2)
      obtain ⟨⟨n, rfl⟩, howner⟩ := hspec.token _ _ htok
      have hslot : ∀ k ∈ g.2.map fun c => keyText s table c.pattern port c.bucketIndex,
          keySlot k = slot (utf8 (numeral n)) := by
        intro k hk
        obtain ⟨c, hcg, rfl⟩ := List.mem_map.mp hk
        obtain ⟨htag, hidx⟩ := hshape c hcg
        rw [keyText, htag, if_pos hb, hidx, List.getD_eq_getElem?_getD, htok]
        exact keySlot_bucketedKey hns.1 (notMem_numeral (by decide)) (numeral_ne_nil n)
      refine ⟨fun k hk k' hk' => (hslot k hk).trans (hslot k' hk').symm, fun hN _ k hk => ?_⟩
      have hpos : 0 < s.numBuckets.toNat := by omega
      have hown := owner_spec hpos (slot_lt (utf8 (numeral n)))
      have hcast : (s.numBuckets.toNat : ℤ) = s.numBuckets := Int.toNat_of_nonneg (by omega)
      rw [howner] at hown
      rw [hslot k hk, ← hcast, slotRange_eq]
      simp only [hcast]
      exact_mod_cast hown
    · obtain ⟨content, hcontent⟩ := keySlot_plainKey hns.2 g.1
      have hslot : ∀ k ∈ g.2.map fun c => keyText s table c.pattern port c.bucketIndex,
          keySlot k = slot (utf8 content) := by
        intro k hk
        obtain ⟨c, hcg, rfl⟩ := List.mem_map.mp hk
        rw [keyText, (hshape c hcg).1, if_neg hb]
        exact hcontent _ _
      exact ⟨fun k hk k' hk' => (hslot k hk).trans (hslot k' hk').symm,
        fun hN hbt => absurd ⟨hbt, hN⟩ hb⟩
  · obtain ⟨token, htok, -⟩ := hspec.token_ok (bucketIndex_lt name hN)
    exact ⟨by rw [bucketIndex, if_pos hN], bucketIndex_lt name hN, token, htok⟩

/-- The groups of a name of three labels under two buckets, each in one slot. -/
theorem three_labels_clustered :
    (groupBy Candidate.tag (candidates "shop.omega.com".toList .multiLevel 2)).length ≤ 3 ∧
      ∀ g ∈ groupBy Candidate.tag (candidates "shop.omega.com".toList .multiLevel 2),
        ∃ keys, (⟨"bench".toList, 2⟩ : RuleStore).groupKeys 443 g.1 g.2 = .ok keys ∧
          ∀ k ∈ keys, ∀ k' ∈ keys, keySlot k = keySlot k' := by
  have hname : normalizeFqdn Ascii.pyAscii "shop.omega.com".toList = .ok "shop.omega.com".toList := by
    decide +kernel
  obtain ⟨hfew, -, hslots, -⟩ := lookups_cluster_safe (s := ⟨"bench".toList, 2⟩)
    compute_twoBuckets (by decide) hname 443 .multiLevel
  refine ⟨hfew, fun g hg => ?_⟩
  obtain ⟨keys, hkeys, hsame, -⟩ := hslots g hg
  exact ⟨keys, hkeys, hsame⟩

end Groups

end FunWithDragonflyDB.Fqdn.Placement
