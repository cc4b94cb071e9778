/- FunWithDragonflyDB/Fqdn/Keys
   digest: Physical key texts determine the pattern, the port and the replica they are built from. -/

import FunWithDragonflyDB.Fqdn.Router

set_option autoImplicit false
set_option relaxedAutoImplicit false

namespace FunWithDragonflyDB.Fqdn.Keys

open Lib.Words
open Strings (Text)
open Pattern Slots Router BucketTable

section Tags

private theorem count_take_two (c : Char) (labels : List Text) :
    ((labels.reverse.take 2).flatten).count c =
      match labels.reverse with
      | [] => 0
      | [l] => l.count c
      | l :: m :: _ => l.count c + m.count c := by
  rcases labels.reverse with _ | ⟨l, _ | ⟨m, ls⟩⟩ <;> simp

theorem hashTag_shape (pattern : Text) :
    (pattern = ['*'] ∧ hashTag pattern = "__global__".toList) ∨
    (∃ l, '.' ∉ l ∧ hashTag pattern = "__tld__:".toList ++ l ∧
      ∀ c, c ≠ '*' → l.count c = tailCount c '.' pattern) ∨
    ∃ a b, hashTag pattern = a ++ '.' :: b ∧
      ∀ c, c ≠ '*' → (a ++ b).count c = tailCount c '.' pattern := by
  -- The letters of the fields left after a leading "*." are those of all fields, save '*'.
  have hlabels : ∀ labels : List Text, labels ≠ [] → (∀ l ∈ labels, '.' ∉ l) →
      (∀ c, c ≠ '*' → ((labels.reverse.take 2).flatten).count c = tailCount c '.' pattern) →
      hashTag pattern = labelsTag labels →
      (∃ l, '.' ∉ l ∧ hashTag pattern = "__tld__:".toList ++ l ∧
        ∀ c, c ≠ '*' → l.count c = tailCount c '.' pattern) ∨
      ∃ a b, hashTag pattern = a ++ '.' :: b ∧
        ∀ c, c ≠ '*' → (a ++ b).count c = tailCount c '.' pattern := by
    intro labels hne hdot hcount htag
    simp only [count_take_two] at hcount
    rw [htag, labelsTag]
    rcases hr : labels.reverse with _ | ⟨l, _ | ⟨m, ls⟩⟩
    · exact absurd (List.reverse_eq_nil_iff.mp hr) hne
    · refine Or.inl ⟨l, hdot l ?_, rfl, fun c hc => by simpa [hr] using hcount c hc⟩
      rw [← List.mem_reverse, hr]
      simp
    · exact Or.inr ⟨m, l, rfl, fun c hc => by
        simpa [hr, List.count_append, Nat.add_comm] using hcount c hc⟩
  by_cases hstar : pattern = ['*']
  · exact Or.inl ⟨hstar, by rw [hstar]; rfl⟩
  · refine Or.inr ?_
    by_cases hprefix : ['*', '.'] <+: pattern
    · obtain ⟨rest, rfl⟩ := hprefix
      refine hlabels (rest.splitOn '.') (List.splitOn_ne_nil _ _) (fun _ hl => notMem_field hl) ?_ ?_
      · intro c hc
        have hs : (['*', '.'] ++ rest).splitOn '.' = ['*'] :: rest.splitOn '.' := by
          simp [List.splitOn_cons_eq_if_modifyHead]
        rw [tailCount, hs, List.reverse_cons]
        rcases hr : (rest.splitOn '.').reverse with _ | ⟨l, _ | ⟨m, ls⟩⟩
        · exact absurd (List.reverse_eq_nil_iff.mp hr) (List.splitOn_ne_nil _ _)
        · simp [List.count_append, Ne.symm hc]
        · simp
      · simp [hashTag]
    · exact hlabels (pattern.splitOn '.') (List.splitOn_ne_nil _ _) (fun _ hl => notMem_field hl)
        (fun c _ => rfl) (by rw [hashTag, if_neg hstar, if_neg hprefix])

theorem count_brace_hashTag (pattern : Text) :
    (hashTag pattern).count '}' = tailCount '}' '.' pattern := by
  rcases hashTag_shape pattern with ⟨rfl, -⟩ | ⟨l, -, htag, hcount⟩ | ⟨a, b, htag, hcount⟩
  · rfl
  · rw [htag, ← hcount '}' (by decide), List.count_append]
    simp
  · rw [htag, ← hcount '}' (by decide), List.count_append, List.count_append]
    simp

private theorem count_tld (l : Text) :
    ("__tld__:".toList ++ l).count ':' = l.count ':' + 1 := by
  rw [List.count_append, Nat.add_comm]
  rfl

theorem tailCount_le_hashTag (pattern : Text) :
    tailCount ':' '.' pattern ≤ (hashTag pattern).count ':' := by
  rcases hashTag_shape pattern with ⟨rfl, -⟩ | ⟨l, -, htag, hcount⟩ | ⟨a, b, htag, hcount⟩
  · exact Nat.zero_le _
  · rw [htag, ← hcount ':' (by decide), count_tld]
    exact Nat.le_succ _
  · rw [htag, ← hcount ':' (by decide), List.count_append, List.count_append]
    simp

end Tags

section Texts

variable {ns ns' p q token token' : Text} {i j : ℕ} {port port' : ℤ}

private theorem notMem_colon_port (port : ℤ) : ':' ∉ intNumeral port :=
  notMem_intNumeral (by decide) (by decide)

theorem plainKey_eq (ns tag p : Text) (port : ℤ) : plainKey ns tag p port =
    ['r', ':', '{'] ++ ns ++ [':'] ++ tag ++ ['}', ':'] ++ p ++ [':'] ++ intNumeral port := by
  have hopen : "r:\x7b".toList = ['r', ':', '{'] := by decide
  have hclose : "\x7d:".toList = ['}', ':'] := by decide
  have hcolon : ":".toList = [':'] := by decide
  unfold plainKey
  rw [hopen, hclose, hcolon]

theorem bucketedKey_eq (ns token tag p : Text) (i : ℕ) (port : ℤ) :
    bucketedKey ns token tag i p port = ['r', ':'] ++ ns ++ [':', '{'] ++ token ++ ['}', ':'] ++
      tag ++ [':'] ++ numeral i ++ [':'] ++ p ++ [':'] ++ intNumeral port := by
  have hstart : "r:".toList = ['r', ':'] := by decide
  have hopen : ":\x7b".toList = [':', '{'] := by decide
  have hclose : "\x7d:".toList = ['}', ':'] := by decide
  have hcolon : ":".toList = [':'] := by decide
  unfold bucketedKey
  rw [hstart, hopen, hclose, hcolon]

theorem metaKey_eq (ns : Text) :
    metaKey ns = "r:\x7b".toList ++ ns ++ ":__meta__\x7d".toList ++ ':' :: "bucketing".toList := by
  have hsplit : ":__meta__\x7d:bucketing".toList = ":__meta__\x7d".toList ++ ':' :: "bucketing".toList :=
    by decide
  unfold metaKey
  rw [hsplit, List.append_assoc, List.append_assoc, List.append_assoc]

/-- Unbucketed keys: the '}' after the tag is found because no pattern that extends another one
has fewer braces in its tag. -/
theorem plainKey_injective (hns : ns.count '}' = ns'.count '}')
    (h : plainKey ns (hashTag p) p port = plainKey ns' (hashTag q) q port') :
    ns ++ ':' :: hashTag p = ns' ++ ':' :: hashTag q ∧ p = q ∧ port = port' := by
  have hcut : (ns ++ ':' :: hashTag p ++ ['}', ':'] ++ p) ++ ':' :: intNumeral port =
      (ns' ++ ':' :: hashTag q ++ ['}', ':'] ++ q) ++ ':' :: intNumeral port' := by
    simpa only [plainKey_eq, List.append_assoc, List.cons_append, List.nil_append, List.cons.injEq,
      true_and] using h
  obtain ⟨hbody, hport⟩ := cut_last (notMem_colon_port port) (notMem_colon_port port') hcut
  -- The longer pattern extends the shorter one by some `u`, which turns out to be empty.
  have hextend : ∀ {ns ns' p q u : Text}, ns.count '}' = ns'.count '}' → p = u ++ q →
      ns' ++ ':' :: hashTag q ++ ['}', ':'] = ns ++ ':' :: hashTag p ++ ['}', ':'] ++ u →
      ns ++ ':' :: hashTag p = ns' ++ ':' :: hashTag q ∧ p = q := by
    intro ns ns' p q u hns hp he
    have hc := congrArg (List.count '}') he
    have hle := tailCount_le_append '}' '.' u q
    simp only [List.count_append, List.count_cons, List.count_nil, count_brace_hashTag] at hc
    rw [hp] at hc
    have hu : '}' ∉ u := by
      rw [← List.count_eq_zero]
      simp at hc
      omega
    have hlast : (ns' ++ ':' :: hashTag q) ++ '}' :: [':'] =
        (ns ++ ':' :: hashTag p) ++ '}' :: (':' :: u) := by simpa using he
    obtain ⟨hleft, hright⟩ := cut_last (by decide) (by simp [hu]) hlast
    have hnil : u = [] := by simpa using hright
    exact ⟨hleft.symm, by simp [hp, hnil]⟩
  rcases suffix_total hbody with ⟨u, hp, he⟩ | ⟨u, hq, he⟩
  · obtain ⟨ht, hpq⟩ := hextend hns hp he
    exact ⟨ht, hpq, intNumeral_injective hport⟩
  · obtain ⟨ht, hpq⟩ := hextend hns.symm hq he
    exact ⟨ht.symm, hpq.symm, intNumeral_injective hport⟩

private theorem bucketed_extend {u : Text} (hp : p = u ++ q)
    (he : hashTag q ++ ':' :: numeral j ++ [':'] = hashTag p ++ ':' :: numeral i ++ [':'] ++ u) :
    p = q := by
  have hnum : ∀ k, ':' ∉ numeral k := fun k => notMem_numeral (by decide)
  have hzero : ∀ k, (numeral k).count ':' = 0 := fun k => List.count_eq_zero.mpr (hnum k)
  have hc := congrArg (List.count ':') he
  have hle := tailCount_le_append ':' '.' u q
  simp only [List.count_append, List.count_cons, List.count_nil, hzero] at hc
  by_cases hu : ':' ∈ u
  · exfalso
    have hpos : 0 < u.count ':' := List.count_pos_iff.mpr hu
    have hge := tailCount_le_hashTag p
    rw [← hp] at hle
    rcases hashTag_shape q with ⟨rfl, hq⟩ | ⟨l, hl, hq, hql⟩ | ⟨a, b, hq, hqab⟩
    · have hglobal : ("__global__".toList).count ':' = 0 := by decide
      rw [hq, hglobal] at hc
      omega
    · rcases hashTag_shape p with ⟨-, hpt⟩ | ⟨m, -, hpt, hpm⟩ | ⟨a, b, hpt, -⟩
      · -- The two tags differ in their third letter.
        rw [hq, hpt] at he
        simp at he
      · rw [hq, hpt, count_tld, count_tld, hql ':' (by decide), hpm ':' (by decide)] at hc
        omega
      · -- An apex has a dot, a single label's tier has none.
        have hdot : '.' ∈ hashTag q ++ ':' :: numeral j ++ [':'] := by
          rw [he]
          simp [hpt]
        rw [hq] at hdot
        have hn : '.' ∉ numeral j := notMem_numeral (by decide)
        simp [hl, hn] at hdot
    · have hqc : (hashTag q).count ':' = tailCount ':' '.' q := by
        rw [hq, ← hqab ':' (by decide), List.count_append, List.count_append]
        simp
      omega
  · have hlast : (hashTag q ++ ':' :: numeral j) ++ ':' :: [] =
        (hashTag p ++ ':' :: numeral i) ++ ':' :: u := by simpa using he
    obtain ⟨-, hright⟩ := cut_last (by simp) hu hlast
    simpa [← hright] using hp

/-- Bucketed keys of one namespace. -/
theorem bucketedKey_injective (htoken : '}' ∉ token) (htoken' : '}' ∉ token')
    (h : bucketedKey ns token (hashTag p) i p port = bucketedKey ns token' (hashTag q) j q port') :
    token = token' ∧ p = q ∧ port = port' := by
  have hfirst : token ++ '}' :: (':' :: hashTag p ++ ':' :: numeral i ++ ':' :: p ++
        ':' :: intNumeral port) =
      token' ++ '}' :: (':' :: hashTag q ++ ':' :: numeral j ++ ':' :: q ++
        ':' :: intNumeral port') := by
    rw [bucketedKey_eq, bucketedKey_eq] at h
    simpa only [List.append_assoc, List.cons_append, List.nil_append, List.cons.injEq, true_and,
      List.append_cancel_left_eq] using h
  obtain ⟨ht, hrest⟩ := cut_first htoken htoken' hfirst
  obtain ⟨hbody, hport⟩ := cut_last (notMem_colon_port port) (notMem_colon_port port') hrest
  refine ⟨ht, ?_, intNumeral_injective hport⟩
  have hbody' : (hashTag p ++ ':' :: numeral i ++ [':']) ++ p =
      (hashTag q ++ ':' :: numeral j ++ [':']) ++ q := by simpa using hbody
  rcases suffix_total hbody' with ⟨u, hp, he⟩ | ⟨u, hq, he⟩
  · exact bucketed_extend hp he
  · exact (bucketed_extend hq he).symm

theorem bucketedKey_ne_plainKey {tag tag' : Text}
    (h : bucketedKey ns token tag i p port = plainKey ns tag' q port') : False := by
  have hshift : ∀ (v x y : Text), v ++ ':' :: '{' :: x ≠ '{' :: (v ++ ':' :: y) := by
    intro v
    induction v with
    | nil => simp
    | cons c v ih =>
      intro x y he
      simp only [List.cons_append, List.cons.injEq] at he
      exact ih x y (he.1 ▸ he.2)
  rw [bucketedKey_eq, plainKey_eq] at h
  simp only [List.append_assoc, List.cons_append, List.nil_append, List.cons.injEq, true_and] at h
  exact hshift ns _ _ h

theorem metaKey_injective (h : metaKey ns = metaKey ns') : ns = ns' := by
  simpa only [metaKey, List.append_assoc, List.append_cancel_left_eq,
    List.append_cancel_right_eq] using h

theorem metaKey_ne {body : Text} (h : metaKey ns = body ++ ':' :: intNumeral port) : False := by
  have hlast : ("r:\x7b".toList ++ ns ++ ":__meta__\x7d".toList) ++ ':' :: "bucketing".toList =
      body ++ ':' :: intNumeral port := metaKey_eq ns ▸ h
  obtain ⟨-, hport⟩ := cut_last (by decide) (notMem_colon_port port) hlast
  have hb : 'b' ∈ intNumeral port := by simp [← hport]
  rcases mem_intNumeral hb with hd | hd <;> simp at hd

end Texts

section Stores

/-- The number of physical keys of a pattern. -/
def replicas (numBuckets : ℤ) (pattern : Text) : ℕ :=
  if isBucketedTag (hashTag pattern) ∧ 1 < numBuckets then numBuckets.toNat else 1

/-- The key text of one replica under the tokens of a table. -/
def keyText (s : RuleStore) (table : BucketTable) (pattern : Text) (port : ℤ) (i : ℕ) : Text :=
  if isBucketedTag (hashTag pattern) ∧ 1 < s.numBuckets then
    bucketedKey s.nameSpace (table.tokens.getD i []) (hashTag pattern) i pattern port
  else plainKey s.nameSpace (hashTag pattern) pattern port

/-- The keys a store may touch: those of its rules and its bucketing record. -/
inductive PhysicalKey (s : RuleStore) : Text → Prop where
  | rule {pattern k : Text} {port : ℤ} {i : ℕ} :
      s.key (hashTag pattern) i pattern port = .ok k → PhysicalKey s k
  | record : PhysicalKey s (metaKey s.nameSpace)

variable {s s' : RuleStore} {table : BucketTable} {p q k : Text} {port port' : ℤ} {i j : ℕ}

theorem key_eq_keyText (ht : computeBucketTable s.numBuckets = .ok table)
    (hi : 1 < s.numBuckets → i < s.numBuckets.toNat) :
    s.key (hashTag p) i p port = .ok (keyText s table p port i) := by
  unfold RuleStore.key keyText
  split_ifs with hb
  · obtain ⟨tok, hok, htok⟩ := (tableSpec_of_compute ht).2.token_ok (hi hb.2)
    simp [ht, hok, htok, bind, Except.bind, pure, Except.pure]
  · rfl

theorem lt_of_replicas (hi : i < replicas s.numBuckets p)
    (hb : isBucketedTag (hashTag p) ∧ 1 < s.numBuckets) : i < s.numBuckets.toNat := by
  rwa [replicas, if_pos hb] at hi

private theorem token_digits (ht : computeBucketTable s.numBuckets = .ok table) (i : ℕ) {c : Char}
    (hc : c.isDigit = false) : c ∉ table.tokens.getD i [] := by
  cases hg : table.tokens[i]? with
  | none => simp [List.getD_eq_getElem?_getD, hg]
  | some tok =>
    obtain ⟨⟨n, rfl⟩, -⟩ := (tableSpec_of_compute ht).2.token i tok hg
    simpa [List.getD_eq_getElem?_getD, hg] using notMem_numeral hc

theorem keyText_injective (ht : computeBucketTable s.numBuckets = .ok table)
    (hi : i < replicas s.numBuckets p) (hj : j < replicas s.numBuckets q)
    (h : keyText s table p port i = keyText s table q port' j) : p = q ∧ port = port' ∧ i = j := by
  unfold keyText at h
  split_ifs at h with hp hq hq
  · have hi' := lt_of_replicas hi hp
    have hj' := lt_of_replicas hj hq
    obtain ⟨htok, hpq, hport⟩ :=
      bucketedKey_injective (token_digits ht i (by decide)) (token_digits ht j (by decide)) h
    obtain ⟨ti, -, hti⟩ := (tableSpec_of_compute ht).2.token_ok hi'
    obtain ⟨tj, -, htj⟩ := (tableSpec_of_compute ht).2.token_ok hj'
    simp only [List.getD_eq_getElem?_getD, hti, htj, Option.getD_some] at htok
    subst htok
    exact ⟨hpq, hport, (tableSpec_of_compute ht).2.token_injective hti htj⟩
  · exact (bucketedKey_ne_plainKey h).elim
  · exact (bucketedKey_ne_plainKey h.symm).elim
  · obtain ⟨-, hpq, hport⟩ := plainKey_injective rfl h
    rw [replicas, if_neg hp] at hi
    rw [replicas, if_neg hq] at hj
    exact ⟨hpq, hport, by omega⟩

theorem keyText_pattern {ns : Text} {n m : ℤ} {table' : BucketTable}
    (ht : computeBucketTable n = .ok table) (ht' : computeBucketTable m = .ok table')
    (h : keyText ⟨ns, n⟩ table p port i = keyText ⟨ns, m⟩ table' q port' j) :
    p = q ∧ port = port' := by
  have hdigits : '}' ∉ table.tokens.getD i [] := token_digits (s := ⟨ns, n⟩) ht i (by decide)
  have hdigits' : '}' ∉ table'.tokens.getD j [] := token_digits (s := ⟨ns, m⟩) ht' j (by decide)
  unfold keyText at h
  split_ifs at h
  · exact (bucketedKey_injective hdigits hdigits' h).2
  · exact (bucketedKey_ne_plainKey h).elim
  · exact (bucketedKey_ne_plainKey h.symm).elim
  · exact (plainKey_injective rfl h).2

private theorem key_shape (h : s.key (hashTag p) i p port = .ok k) :
    (∃ token, k = bucketedKey s.nameSpace token (hashTag p) i p port) ∨
      k = plainKey s.nameSpace (hashTag p) p port := by
  unfold RuleStore.key at h
  split_ifs at h
  · cases ht : computeBucketTable s.numBuckets with
    | error e => simp [ht, bind, Except.bind] at h
    | ok table =>
      cases htok : table.token i with
      | error e => simp [ht, htok, bind, Except.bind] at h
      | ok token =>
        simp only [ht, htok, bind, Except.bind, pure, Except.pure, Except.ok.injEq] at h
        exact Or.inl ⟨token, h.symm⟩
  · exact Or.inr (Except.ok.inj h).symm

private theorem key_ends_in_port (h : s.key (hashTag p) i p port = .ok k) :
    ∃ body, k = body ++ ':' :: intNumeral port := by
  rcases key_shape h with ⟨token, rfl⟩ | rfl
  · exact ⟨_, by rw [bucketedKey_eq, List.append_assoc, List.singleton_append]⟩
  · exact ⟨_, by rw [plainKey_eq, List.append_assoc, List.singleton_append]⟩

theorem key_ne_metaKey {ns : Text} (h : s.key (hashTag p) i p port = .ok k) : k ≠ metaKey ns := by
  obtain ⟨body, hk⟩ := key_ends_in_port h
  rintro rfl
  exact metaKey_ne hk

private theorem bucketed_ne_plain_of_braceFree {ns ns' token tag tag' : Text} (hns : '{' ∉ ns)
    (h : bucketedKey ns token tag i p port = plainKey ns' tag' q port') : False := by
  rw [bucketedKey_eq, plainKey_eq] at h
  cases ns with
  | nil => simp at h
  | cons c ns =>
    simp only [List.cons_append, List.nil_append, List.cons.injEq, List.append_assoc, true_and] at h
    exact hns (by simp [h.1])

theorem PhysicalKey.namespace_eq (hs : '{' ∉ s.nameSpace ∧ '}' ∉ s.nameSpace)
    (hs' : '{' ∉ s'.nameSpace ∧ '}' ∉ s'.nameSpace) (h : PhysicalKey s k) (h' : PhysicalKey s' k) :
    s.nameSpace = s'.nameSpace := by
  have hcount : s.nameSpace.count '}' = s'.nameSpace.count '}' := by
    rw [List.count_eq_zero.mpr hs.2, List.count_eq_zero.mpr hs'.2]
  cases h with
  | rule hk =>
    cases h' with
    | rule hk' =>
      rcases key_shape hk with ⟨token, he⟩ | he <;> rcases key_shape hk' with ⟨token', he'⟩ | he' <;>
        rw [he] at he'
      · have hopen : ∀ ns : Text, '{' ∉ ns → '{' ∉ ns ++ [':'] := fun ns hns => by simp [hns]
        rw [bucketedKey_eq, bucketedKey_eq] at he'
        simp only [List.append_assoc, List.cons_append, List.nil_append, List.cons.injEq,
          true_and] at he'
        have hcut := cut_first (s := '{') (hopen _ hs.1) (hopen _ hs'.1)
          (by simpa only [List.append_assoc, List.cons_append, List.nil_append] using he')
        exact List.append_cancel_right hcut.1
      · exact (bucketed_ne_plain_of_braceFree hs.1 he').elim
      · exact (bucketed_ne_plain_of_braceFree hs'.1 he'.symm).elim
      · obtain ⟨hns, hpq, -⟩ := plainKey_injective hcount he'
        subst hpq
        exact List.append_cancel_right hns
    | record => exact absurd rfl (key_ne_metaKey hk)
  | record =>
    generalize hm : metaKey s.nameSpace = m at h'
    cases h' with
    | rule hk' => exact absurd hm.symm (key_ne_metaKey hk')
    | record => exact metaKey_injective hm

/-- Physical keys never collide: within a namespace they tell patterns, ports and replicas apart,
no bucketed key is an unbucketed one, no rule key is the record's, and namespaces share no key. -/
theorem keys_never_collide (ht : computeBucketTable s.numBuckets = .ok table) :
    (∀ p q port port' i j k, i < replicas s.numBuckets p → j < replicas s.numBuckets q →
      s.key (hashTag p) i p port = .ok k → s.key (hashTag q) j q port' = .ok k →
      p = q ∧ port = port' ∧ i = j) ∧
    (∀ token tag tag' p q i port port',
      bucketedKey s.nameSpace token tag i p port ≠ plainKey s.nameSpace tag' q port') ∧
    (∀ p port i k, s.key (hashTag p) i p port = .ok k → k ≠ metaKey s.nameSpace) ∧
    ∀ s' : RuleStore, s'.numBuckets = s.numBuckets → s'.nameSpace ≠ s.nameSpace →
      ('{' ∉ s.nameSpace ∧ '}' ∉ s.nameSpace) → ('{' ∉ s'.nameSpace ∧ '}' ∉ s'.nameSpace) →
      ∀ k, PhysicalKey s k → ¬PhysicalKey s' k := by
  refine ⟨?_, fun _ _ _ _ _ _ _ _ h => bucketedKey_ne_plainKey h,
    fun _ _ _ _ h => key_ne_metaKey h, ?_⟩
  · intro p q port port' i j k hi hj hp hq
    have hlt : ∀ {p i}, i < replicas s.numBuckets p → 1 < s.numBuckets → i < s.numBuckets.toNat := by
      intro p i hi hN
      unfold replicas at hi
      split_ifs at hi <;> omega
    rw [key_eq_keyText ht (hlt hi)] at hp
    rw [key_eq_keyText ht (hlt hj)] at hq
    exact keyText_injective ht hi hj (Except.ok.inj (hp.trans hq.symm))
  · intro s' _ hne hs hs' k hk hk'
    exact hne (hk.namespace_eq hs hs' hk').symm

/-- Two replicas of the global pattern under two buckets. -/
theorem global_replicas_differ :
    (⟨"a".toList, 2⟩ : RuleStore).key (hashTag ['*']) 0 ['*'] 443 ≠
      (⟨"a".toList, 2⟩ : RuleStore).key (hashTag ['*']) 1 ['*'] 443 := by
  intro h
  obtain ⟨k, hk⟩ : ∃ k, (⟨"a".toList, 2⟩ : RuleStore).key (hashTag ['*']) 0 ['*'] 443 = .ok k :=
    ⟨_, key_eq_keyText compute_twoBuckets (by decide)⟩
  have hi := (keys_never_collide (s := ⟨"a".toList, 2⟩) compute_twoBuckets).1 ['*'] ['*'] 443 443 0 1 k
    (by decide) (by decide) hk (h ▸ hk)
  exact absurd hi.2.2 (by decide)

end Stores

end FunWithDragonflyDB.Fqdn.Keys
