/- FunWithDragonflyDB/Fqdn/Reference
   digest: The abstract rule map and the answer it owes to a query. -/

import FunWithDragonflyDB.Fqdn.Candidates
import FunWithDragonflyDB.Fqdn.Router

set_option autoImplicit false
set_option relaxedAutoImplicit false

namespace FunWithDragonflyDB.Fqdn.Reference

open Strings (Text)
open Pattern Candidates Router

structure Triple where
  fqdn1 : Text
  port : ℤ
  fqdn2 : Text
  deriving DecidableEq

def tripleOf (rule : Rule) : Triple := ⟨rule.fqdn1, rule.port, rule.fqdn2⟩

/-- What the component is for: a finite map from triples to a scope and a rule id. -/
abbrev RuleMap := Triple → Option (WildcardScope × Text)

inductive Operation where
  | put (rule : Rule)
  | putMany (rules : List Rule)
  | delete (fqdn1 : Text) (port : ℤ) (fqdn2 : Text)

abbrev PortOk (port : ℤ) : Prop := 0 < port ∧ port < 65536

/-- The last write wins. -/
def record (m : RuleMap) (rule : Rule) : RuleMap :=
  Function.update m (tripleOf rule) (some (rule.scope, rule.ruleId))

/-- The map after an operation; a rejected one changes nothing. -/
def after (m : RuleMap) : Operation → RuleMap
  | .put rule => if PortOk rule.port then record m rule else m
  | .putMany rules => if ∀ rule ∈ rules, PortOk rule.port then rules.foldl record m else m
  | .delete fqdn1 port fqdn2 => Function.update m ⟨fqdn1, port, fqdn2⟩ none

/-- Scope keeps a rule from matching at these ranks; an exact match is never kept out. -/
def ScopeBlocks (scope : WildcardScope) (rank1 rank2 : ℕ) : Prop :=
  ¬(rank1 = 0 ∧ rank2 = 0) ∧
    (scope = .single ∧ (deepRank rank1 ∨ deepRank rank2) ∨
      scope = .multi ∧ ¬(deepRank rank1 ∨ deepRank rank2))

/-- The same of the scope letter that a stored value starts with. -/
def LetterBlocks (scope : Char) (rank1 rank2 : ℕ) : Prop :=
  ¬(rank1 = 0 ∧ rank2 = 0) ∧
    (scope = 'S' ∧ (deepRank rank1 ∨ deepRank rank2) ∨
      scope = 'M' ∧ ¬(deepRank rank1 ∨ deepRank rank2))

/-- A rule of the map that matches the query and is not blocked, with its ranks. -/
structure Eligible (m : RuleMap) (name1 : Text) (port : ℤ) (name2 : Text) (multi : Bool)
    (t : Match) : Prop where
  port_eq : t.port = port
  admits1 : Admits name1 multi t.fqdn1Pattern t.specificity.1
  admits2 : Admits name2 multi t.fqdn2Pattern t.specificity.2
  rule : ∃ scope, m ⟨t.fqdn1Pattern, port, t.fqdn2Pattern⟩ = some (scope, t.ruleId) ∧
    ¬ScopeBlocks scope t.specificity.1 t.specificity.2

/-- The answer: no rule is eligible, or an eligible one of least ranks. -/
def IsAnswer (m : RuleMap) (name1 : Text) (port : ℤ) (name2 : Text) (multi : Bool) :
    Option Match → Prop
  | none => ∀ t, ¬Eligible m name1 port name2 multi t
  | some t => Eligible m name1 port name2 multi t ∧
      ∀ u, Eligible m name1 port name2 multi u → toLex t.specificity ≤ toLex u.specificity

section Unique

variable {m : RuleMap} {name1 name2 p q : Text} {port : ℤ} {multi : Bool} {r : ℕ}

theorem Admits.pattern_unique {name : Text} (hc : Clean name) (hp : Admits name multi p r)
    (hq : Admits name multi q r) : p = q := by
  have hn := hc.count
  simp only [maxLabels] at hn
  cases hp with
  | exact =>
    generalize hr : 0 = r' at hq
    cases hq with
    | exact => rfl
    | wildcard h1 _ _ => omega
    | global => simp [globalRank] at hr
  | wildcard h1 hk _ =>
    cases hq with
    | exact => omega
    | wildcard _ _ _ => rfl
    | global => simp only [globalRank] at hk; omega
  | global =>
    generalize hr : globalRank = r' at hq
    cases hq with
    | exact => simp [globalRank] at hr
    | wildcard h1 hk _ => simp only [globalRank] at hr; omega
    | global => rfl

/-- A query has one answer. -/
theorem IsAnswer.unique (h1 : Clean name1) (h2 : Clean name2) {a b : Option Match}
    (ha : IsAnswer m name1 port name2 multi a) (hb : IsAnswer m name1 port name2 multi b) :
    a = b := by
  rcases a with _ | t <;> rcases b with _ | u
  · rfl
  · exact absurd hb.1 (ha u)
  · exact absurd ha.1 (hb t)
  · have hs : t.specificity = u.specificity :=
      toLex.injective (le_antisymm (ha.2 u hb.1) (hb.2 t ha.1))
    have hp1 : t.fqdn1Pattern = u.fqdn1Pattern :=
      Admits.pattern_unique h1 ha.1.admits1 (hs ▸ hb.1.admits1)
    have hp2 : t.fqdn2Pattern = u.fqdn2Pattern :=
      Admits.pattern_unique h2 ha.1.admits2 (hs ▸ hb.1.admits2)
    obtain ⟨scope, hrule, -⟩ := ha.1.rule
    obtain ⟨scope', hrule', -⟩ := hb.1.rule
    rw [hp1, hp2] at hrule
    have hid := congrArg Prod.snd (Option.some.inj (hrule.symm.trans hrule'))
    have hport := ha.1.port_eq.trans hb.1.port_eq.symm
    cases t
    cases u
    simp_all

end Unique

end FunWithDragonflyDB.Fqdn.Reference
