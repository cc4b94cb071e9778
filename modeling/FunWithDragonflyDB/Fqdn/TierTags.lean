/- FunWithDragonflyDB/Fqdn/TierTags
   digest: Which names have an apex that the text of its tag passes off as a catch-all tier. -/

import FunWithDragonflyDB.Fqdn.Clients
import FunWithDragonflyDB.Fqdn.Counts

set_option autoImplicit false
set_option relaxedAutoImplicit false

namespace FunWithDragonflyDB.Fqdn.TierTags

open Lib.Words
open Strings (Text StringLib)
open Pattern Candidates Slots Router Counts

/-- The labels that the tag of a pattern is made from. -/
def remaining (pattern : Text) : List Text :=
  if ['*', '.'] <+: pattern then (pattern.drop 2).splitOn '.' else pattern.splitOn '.'

/-- The pattern belongs to the global tier or to that of a single label. -/
def CatchAll (pattern : Text) : Prop := pattern = ['*'] ∨ (remaining pattern).length = 1

/-- The label before the last one starts like the tag of a catch-all tier. -/
def Disguised (pattern : Text) : Prop :=
  ∃ labels previous last, remaining pattern = labels ++ [previous, last] ∧
    "__tld__:".toList <+: previous

/-- The patterns that a name gives rise to: those its lookups try, and those of rules for it. -/
def PatternOf (name pattern : Text) : Prop :=
  (∃ mode numBuckets, ∃ c ∈ candidates name mode numBuckets, c.pattern = pattern) ∨
    pattern = name ∨ pattern = ['*', '.'] ++ name

/-- The pattern is taken for a catch-all exactly if it is one, and else has one key. -/
structure RightTier (pattern : Text) : Prop where
  tag : isBucketedTag (hashTag pattern) = true ↔ CatchAll pattern
  goTag : GoPattern.isBucketedTag (GoPattern.hashTag pattern) = true ↔ CatchAll pattern
  oneKey : ¬CatchAll pattern → ∀ nameSpace numBuckets port,
    ∃ key, (⟨nameSpace, numBuckets⟩ : RuleStore).keysForPattern pattern port = .ok [key]

section Patterns

variable {name p : Text}

theorem remaining_star : remaining ['*'] = [['*']] := by decide

theorem remaining_ne_nil (p : Text) : remaining p ≠ [] := by
  unfold remaining
  split_ifs <;> exact List.splitOn_ne_nil _ _

theorem hashTag_remaining (h : p ≠ ['*']) : hashTag p = labelsTag (remaining p) := by
  unfold hashTag remaining
  rw [if_neg h]
  split_ifs <;> rfl

/-- The mark of a tag holds no dot, so it cannot reach past the first label of an apex. -/
theorem mark_in_apex {previous last : Text} :
    "__tld__:".toList <+: previous ++ '.' :: last ↔ "__tld__:".toList <+: previous := by
  constructor
  · intro h
    rcases List.prefix_or_prefix_of_prefix h (List.prefix_append previous ('.' :: last)) with hp | hp
    · exact hp
    · obtain ⟨rest, hrest⟩ := hp
      rw [← hrest, List.prefix_append_right_inj] at h
      cases rest with
      | nil =>
        rw [← hrest, List.append_nil]
      | cons c rest =>
        obtain ⟨rfl, -⟩ := List.cons_prefix_cons.mp h
        have hdot : '.' ∈ "__tld__:".toList := by
          rw [← hrest]
          simp
        exact absurd hdot (by decide)
  · intro h
    exact h.trans (List.prefix_append _ _)

theorem labelsTag_pair (labels : List Text) (previous last : Text) :
    labelsTag (labels ++ [previous, last]) = previous ++ '.' :: last := by
  unfold labelsTag
  rw [List.reverse_append]
  rfl

theorem disguised_iff {labels : List Text} {previous last : Text}
    (h : remaining p = labels ++ [previous, last]) :
    Disguised p ↔ "__tld__:".toList <+: previous := by
  unfold Disguised
  rw [h]
  constructor
  · rintro ⟨labels', previous', last', he, hp⟩
    have htail := (List.append_inj' he rfl).2
    simp only [List.cons.injEq, and_true] at htail
    rwa [htail.1]
  · intro hp
    exact ⟨labels, previous, last, rfl, hp⟩

theorem isBucketedTag_iff (p : Text) :
    isBucketedTag (hashTag p) = true ↔ CatchAll p ∨ Disguised p := by
  by_cases hstar : p = ['*']
  · subst hstar
    exact iff_of_true rfl (Or.inl (Or.inl rfl))
  · rw [hashTag_remaining hstar]
    rcases List.eq_nil_or_concat (remaining p) with h | ⟨front, last, h⟩
    · exact absurd h (remaining_ne_nil p)
    · rcases List.eq_nil_or_concat front with rfl | ⟨front, previous, rfl⟩
      · have hone : CatchAll p := Or.inr (by rw [h]; rfl)
        refine iff_of_true ?_ (Or.inl hone)
        rw [h]
        simp [isBucketedTag, labelsTag]
      · have hpair : remaining p = front ++ [previous, last] := by simp [h]
        have hglobal : previous ++ '.' :: last ≠ "__global__".toList := by
          intro he
          have hdot : '.' ∈ "__global__".toList := by
            rw [← he]
            simp
          exact absurd hdot (by decide)
        have hlen : (front ++ [previous, last]).length ≠ 1 := by simp
        rw [disguised_iff hpair, CatchAll, hpair, labelsTag_pair]
        simp only [isBucketedTag, Bool.or_eq_true, decide_eq_true_eq, List.isPrefixOf_iff_prefix,
          hglobal, mark_in_apex, hstar, hlen, false_or]

theorem not_catchAll_of_disguised (h : Disguised p) : ¬CatchAll p := by
  obtain ⟨labels, previous, last, he, -⟩ := h
  rintro (rfl | hone)
  · rw [remaining_star] at he
    have hlen := congrArg List.length he
    simp at hlen
  · rw [he] at hone
    simp at hone

/-- A pattern that is no catch-all has the one key, unless the text of its tag says otherwise. -/
theorem rightTier_iff (p : Text) : RightTier p ↔ ¬Disguised p := by
  have htag := isBucketedTag_iff p
  constructor
  · intro h hd
    exact not_catchAll_of_disguised hd (h.tag.mp (htag.mpr (Or.inr hd)))
  · intro hd
    have htag' : isBucketedTag (hashTag p) = true ↔ CatchAll p := by
      rw [htag, or_iff_left hd]
    refine ⟨htag', htag', ?_⟩
    intro hca ns n port
    exact ⟨_, keysForPattern_plain (fun hr => hca (htag'.mp hr.1)) port⟩

theorem disguised_replicated (h : Disguised p) (ns : Text) (port : ℤ) :
    ∃ k k', (⟨ns, 2⟩ : RuleStore).keysForPattern p port = .ok [k, k'] := by
  have hb : isBucketedTag (hashTag p) = true ∧ (1 : ℤ) < 2 :=
    ⟨(isBucketedTag_iff p).mpr (Or.inr h), by decide⟩
  have hrep : Keys.replicas 2 p = 2 := if_pos hb
  rw [Writes.keysForPattern_ok (s := ⟨ns, 2⟩) compute_twoBuckets, Writes.replicaKeys,
    hrep]
  exact ⟨_, _, rfl⟩

theorem disguised_of_pattern (hc : Clean name) (hp : PatternOf name p) (hd : Disguised p) :
    Disguised name := by
  have hname : remaining name = name.splitOn '.' := if_neg fun h => hc.star (h.subset (by simp))
  obtain ⟨labels, previous, last, he, hmark⟩ := hd
  rcases hp with ⟨mode, n, c, hcand, rfl⟩ | rfl | rfl
  · obtain ⟨q, r, hadm, rfl⟩ := (mem_ancestorWalk hc).mp hcand
    have hq : (makeCandidate (bucketIndex name n) q r (deepRank r)).pattern = q := rfl
    rw [hq] at he
    cases hadm with
    | exact => exact ⟨labels, previous, last, he, hmark⟩
    | wildcard h1 hk hm =>
      have hw : remaining (wildcardAt (name.splitOn '.') r) = (name.splitOn '.').drop r := by
        have hpre : ['*', '.'] <+: wildcardAt (name.splitOn '.') r := List.prefix_append ..
        rw [remaining, if_pos hpre]
        exact splitOn_join_drop (fun _ hl => notMem_field hl) hk
      refine ⟨(name.splitOn '.').take r ++ labels, previous, last, ?_, hmark⟩
      rw [hname, List.append_assoc, ← he, hw, List.take_append_drop]
    | global =>
      rw [remaining_star] at he
      have hlen := congrArg List.length he
      simp at hlen
  · exact ⟨labels, previous, last, he, hmark⟩
  · have hw : remaining (['*', '.'] ++ name) = name.splitOn '.' := if_pos (List.prefix_append ..)
    rw [hw, ← hname] at he
    exact ⟨labels, previous, last, he, hmark⟩

/-- The tiers of an accepted name's patterns are told apart rightly exactly if the label before
its last one does not start with the mark of a catch-all tier. -/
theorem tiers_right_iff {lib : StringLib} {fqdn : Text} (h : normalizeFqdn lib fqdn = .ok name) :
    (∀ p, PatternOf name p → (RightTier p ↔ ¬Disguised p)) ∧
      ((∀ p, PatternOf name p → RightTier p) ↔ ¬Disguised name) := by
  have hc := clean_of_normalize h
  refine ⟨fun p _ => rightTier_iff p, ?_⟩
  constructor
  · intro hall
    exact (rightTier_iff name).mp (hall name (Or.inr (Or.inl rfl)))
  · intro hd p hp
    exact (rightTier_iff p).mpr fun hdp => hd (disguised_of_pattern hc hp hdp)

/-- An ordinary host name. -/
theorem host_name_tiers :
    normalizeFqdn Ascii.pyAscii "shop.omega.com".toList = .ok "shop.omega.com".toList ∧
      ∀ p, PatternOf "shop.omega.com".toList p → RightTier p := by
  have hname : normalizeFqdn Ascii.pyAscii "shop.omega.com".toList =
      .ok "shop.omega.com".toList := by
    decide +kernel
  refine ⟨hname, (tiers_right_iff hname).2.mpr ?_⟩
  have hsplit : remaining "shop.omega.com".toList =
      ["shop".toList] ++ ["omega".toList, "com".toList] := by
    decide
  rw [disguised_iff hsplit]
  decide

/-- A label may read like the mark of a tier, and then the apex is replicated. -/
theorem marked_label_replicated :
    ¬∀ fqdn name, normalizeFqdn Ascii.pyAscii fqdn = .ok name → ∀ p, PatternOf name p →
      (isBucketedTag (hashTag p) = true ↔ CatchAll p) := by
  intro h
  have hname : normalizeFqdn Ascii.pyAscii "shop.__tld__:omega.com".toList =
      .ok "shop.__tld__:omega.com".toList := by
    decide +kernel
  have htag := h _ _ hname _ (Or.inr (Or.inl rfl))
  have hca : ¬CatchAll "shop.__tld__:omega.com".toList := by
    unfold CatchAll
    decide
  exact hca (htag.mp (by decide))

end Patterns

end FunWithDragonflyDB.Fqdn.TierTags
