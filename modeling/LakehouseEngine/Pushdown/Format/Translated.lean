import LakehouseEngine.Data.ListRelation
import LakehouseEngine.Expression.Semantics

/-!
# Partial translation of a filter

The table formats prune files by a predicate of their own, built from the parts of the
filter they can express.  A conjunct without a translation is dropped, which widens the
predicate, so a translation also records whether it is exact: only an exact one may be
negated.  A `Translator` holds what the formats differ in.
-/

namespace LakehouseEngine

/-- A format's predicate for a condition.  It is implied by the condition, and equivalent
to it when `exact`. -/
structure Translated (P : Type) where
  predicate : P
  exact : Bool

namespace Translated

variable {P : Type}

/-- `Translated::exact`. -/
def ofExact (predicate : P) : Translated P := ⟨predicate, true⟩

/-- Untranslatable conjuncts are dropped. -/
def foldAnd (conjoin : List P → Option P) (children : List (Option (Translated P))) :
    Option (Translated P) := do
  let predicate ← conjoin (children.filterMap fun child => child.map Translated.predicate)
  return ⟨predicate, children.all fun child => (child.map Translated.exact).getD false⟩

/-- One untranslatable disjunct forfeits the whole disjunction. -/
def foldOr (disjoin : List P → Option P) (children : List (Option (Translated P))) :
    Option (Translated P) := do
  let translated ← children.mapM id
  let predicate ← disjoin (translated.map Translated.predicate)
  return ⟨predicate, translated.all Translated.exact⟩

/-- The predicate may stand for a condition of the given truth value.  `strict` holds for
a condition under a negation, where an exact predicate must not be wider. -/
structure Covers (holds : P → Truth) (strict : Bool) (translated : Translated P)
    (truth : Truth) : Prop where
  ofTrue : truth = some true → holds translated.predicate = some true
  ofStrict : strict = true → translated.exact = true → holds translated.predicate = truth

section Folds

variable {holds : P → Truth} {strict : Bool} {children : List (Option (Translated P))}
  {truths : List Truth} {folded : Translated P}

theorem Covers.of_eq {translated : Translated P} {truth : Truth}
    (equal : holds translated.predicate = truth) : Covers holds strict translated truth :=
  ⟨fun isTrue => equal.trans isTrue, fun _ _ => equal⟩

theorem filterMap_all_true (each : List.Forall₂ (fun child truth =>
      ∀ translated, child = some translated → Covers holds strict translated truth)
      children truths)
    (isTrue : Truth.all truths = some true) :
    ∀ predicate ∈ children.filterMap fun child => child.map Translated.predicate,
      holds predicate = some true := by
  induction each with
  | nil => simp
  | cons head _ ih =>
      rw [Truth.all_eq_true] at isTrue
      intro predicate member
      obtain ⟨child, listed, mapped⟩ := List.mem_filterMap.mp member
      obtain ⟨translated, found, rfl⟩ := Option.map_eq_some_iff.mp mapped
      rcases List.mem_cons.mp listed with rfl | inRest
      · exact (head translated found).ofTrue (isTrue _ (by simp))
      · refine ih (Truth.all_eq_true.mpr fun truth mem => isTrue truth (by simp [mem])) _ ?_
        exact List.mem_filterMap.mpr ⟨child, inRest, mapped⟩

/-- Children that are all translated exactly keep their truth values in order. -/
theorem filterMap_exact (each : List.Forall₂ (fun child truth =>
      ∀ translated, child = some translated → Covers holds true translated truth)
      children truths)
    (exact : children.all fun child => (child.map Translated.exact).getD false) :
    (children.filterMap fun child => child.map Translated.predicate).map holds = truths := by
  induction each with
  | nil => rfl
  | @cons child truth children truths head _ ih =>
      rw [List.all_cons, Bool.and_eq_true] at exact
      cases child with
      | none => simp at exact
      | some translated =>
          have equal := (head translated rfl).ofStrict rfl exact.1
          simp only [List.filterMap_cons, Option.map_some, List.map_cons, equal, ih exact.2]

theorem foldAnd_covers {conjoin : List P → Option P}
    (meaning : ∀ predicates predicate, conjoin predicates = some predicate →
      holds predicate = .all (predicates.map holds))
    (each : List.Forall₂ (fun child truth =>
      ∀ translated, child = some translated → Covers holds strict translated truth)
      children truths)
    (found : foldAnd conjoin children = some folded) :
    Covers holds strict folded (.all truths) := by
  simp only [foldAnd, Option.bind_eq_bind, Option.bind_eq_some_iff, Option.pure_def,
    Option.some.injEq] at found
  obtain ⟨predicate, conjoined, rfl⟩ := found
  constructor
  · intro isTrue
    rw [meaning _ _ conjoined, Truth.all_eq_true]
    intro truth member
    obtain ⟨predicate, listed, rfl⟩ := List.mem_map.mp member
    exact filterMap_all_true each isTrue predicate listed
  · rintro rfl exact
    rw [meaning _ _ conjoined, filterMap_exact each exact]

theorem any_true_of_covers {translated : List (Translated P)}
    (each : List.Forall₂ (Covers holds strict) translated truths)
    (isTrue : Truth.any truths = some true) :
    Truth.any (translated.map fun child => holds child.predicate) = some true := by
  induction each with
  | nil => exact isTrue
  | cons head _ ih =>
      rw [Truth.any_cons, Truth.or_eq_true] at isTrue
      rw [List.map_cons, Truth.any_cons, Truth.or_eq_true]
      exact isTrue.imp head.ofTrue ih

theorem map_exact {translated : List (Translated P)}
    (each : List.Forall₂ (Covers holds true) translated truths)
    (exact : translated.all Translated.exact) :
    translated.map (fun child => holds child.predicate) = truths := by
  induction each with
  | nil => rfl
  | cons head _ ih =>
      rw [List.all_cons, Bool.and_eq_true] at exact
      rw [List.map_cons, head.ofStrict rfl exact.1, ih exact.2]

theorem mapM_id_eq_some {children : List (Option (Translated P))}
    {translated : List (Translated P)} (all : children.mapM id = some translated) :
    children = translated.map some := by
  rw [← List.forall₂_eq_eq_eq, List.forall₂_map_right_iff]
  exact forall₂_of_mapM all

theorem foldOr_covers {disjoin : List P → Option P}
    (meaning : ∀ predicates predicate, disjoin predicates = some predicate →
      holds predicate = .any (predicates.map holds))
    (each : List.Forall₂ (fun child truth =>
      ∀ translated, child = some translated → Covers holds strict translated truth)
      children truths)
    (found : foldOr disjoin children = some folded) :
    Covers holds strict folded (.any truths) := by
  simp only [foldOr, Option.bind_eq_bind, Option.bind_eq_some_iff, Option.pure_def,
    Option.some.injEq] at found
  obtain ⟨translated, all, predicate, disjoined, rfl⟩ := found
  have covered : List.Forall₂ (Covers holds strict) translated truths := by
    rw [mapM_id_eq_some all, List.forall₂_map_left_iff] at each
    exact each.imp fun child truth covers => covers child rfl
  have value : holds predicate = .any (translated.map fun child => holds child.predicate) := by
    rw [meaning _ _ disjoined, List.map_map]
    rfl
  constructor
  · intro isTrue
    exact value.trans (any_true_of_covers covered isTrue)
  · rintro rfl exact
    rw [value, map_exact covered exact]

end Folds

end Translated

/-- What a format brings to the translation: its conditions on single columns, and its
connectives.  An empty junction has no predicate. -/
structure Translator (P : Type) where
  leaf : Node → Option (Translated P)
  conjoin : List P → Option P
  disjoin : List P → Option P
  negate : P → P

namespace Translator

variable {P : Type}

mutual

/-- The translation of a condition, over a format's own leaves. -/
def translate (translator : Translator P) : Node → Option (Translated P)
  | .predicateAnd expressions =>
      Translated.foldAnd translator.conjoin (translateEach translator expressions)
  | .predicateOr expressions =>
      Translated.foldOr translator.disjoin (translateEach translator expressions)
  | .predicateNot expression => do
      let inner ← translate translator expression
      if inner.exact then some (.ofExact (translator.negate inner.predicate)) else none
  | node => translator.leaf node

def translateEach (translator : Translator P) : List Node → List (Option (Translated P))
  | [] => []
  | node :: nodes => translate translator node :: translateEach translator nodes

end

/-- The format's connectives are those of three-valued logic. -/
structure Lawful (translator : Translator P) (holds : P → Truth) : Prop where
  conjoin : ∀ predicates predicate, translator.conjoin predicates = some predicate →
    holds predicate = .all (predicates.map holds)
  disjoin : ∀ predicates predicate, translator.disjoin predicates = some predicate →
    holds predicate = .any (predicates.map holds)
  negate : ∀ predicate, holds (translator.negate predicate) = (holds predicate).not

/-- `Placed translator strict node strict' inner`: the predicate of `inner` stands inside
that of `node`.  The flags tell which of the two stand under a negation. -/
inductive Placed (translator : Translator P) : Bool → Node → Bool → Node → Prop where
  | here (strict : Bool) (node : Node) : Placed translator strict node strict node
  | conjunct {strict strict' : Bool} {expressions : List Node} {child inner : Node}
      (member : child ∈ expressions) (found : (translator.translate child).isSome)
      (placed : Placed translator strict child strict' inner) :
      Placed translator strict (.predicateAnd expressions) strict' inner
  | disjunct {strict strict' : Bool} {expressions : List Node} {child inner : Node}
      (member : child ∈ expressions)
      (placed : Placed translator strict child strict' inner) :
      Placed translator strict (.predicateOr expressions) strict' inner
  | negated {strict strict' : Bool} {expression inner : Node}
      (placed : Placed translator true expression strict' inner) :
      Placed translator strict (.predicateNot expression) strict' inner

/-- The conditions that are translated by a format's own rules. -/
def isLeaf : Node → Bool
  | .predicateAnd _ | .predicateOr _ | .predicateNot _ => false
  | _ => true

theorem translate_leaf (translator : Translator P) {node : Node} (leaf : isLeaf node = true) :
    translator.translate node = translator.leaf node := by
  cases node <;> first | rfl | simp [isLeaf] at leaf

theorem translateEach_eq_map (translator : Translator P) (nodes : List Node) :
    translator.translateEach nodes = nodes.map translator.translate := by
  induction nodes with
  | nil => rfl
  | cons node nodes ih => rw [translateEach, ih, List.map_cons]

variable {translator : Translator P}

/-- A translation covers its condition as soon as each placed leaf does. -/
theorem translate_covers {holds : P → Truth}
    (lawful : translator.Lawful holds) (reading : Reading) (env : Env) (node : Node) {strict : Bool}
    {translated : Translated P}
    (leaves : ∀ strict' inner, translator.Placed strict node strict' inner → isLeaf inner = true →
      ∀ found, translator.leaf inner = some found →
        found.Covers holds strict' (inner.truth reading env))
    (found : translator.translate node = some translated) :
    translated.Covers holds strict (node.truth reading env) := by
  induction node using Node.inductOnChildren generalizing strict translated with
  | step node ih =>
      cases node with
      | predicateAnd expressions =>
          rw [Node.truth_predicateAnd]
          rw [translate, translateEach_eq_map] at found
          refine Translated.foldAnd_covers lawful.conjoin ?_ found
          rw [List.forall₂_map_left_iff, List.forall₂_map_right_iff, List.forall₂_same]
          intro child member inner childFound
          refine ih child member (fun strict' leaf placed => ?_) childFound
          exact leaves strict' leaf (.conjunct member (by simp [childFound]) placed)
      | predicateOr expressions =>
          rw [Node.truth_predicateOr]
          rw [translate, translateEach_eq_map] at found
          refine Translated.foldOr_covers lawful.disjoin ?_ found
          rw [List.forall₂_map_left_iff, List.forall₂_map_right_iff, List.forall₂_same]
          intro child member inner childFound
          refine ih child member (fun strict' leaf placed => ?_) childFound
          exact leaves strict' leaf (.disjunct member placed)
      | predicateNot expression =>
          simp only [translate, Option.bind_eq_bind, Option.bind_eq_some_iff] at found
          obtain ⟨inner, innerFound, negated⟩ := found
          split at negated
          · next exact =>
              cases negated
              have covers := ih expression (by simp [Node.children])
                (fun strict' leaf placed => leaves strict' leaf (.negated placed)) innerFound
              rw [Node.truth_predicateNot]
              refine .of_eq ?_
              change holds (translator.negate inner.predicate) = _
              rw [lawful.negate, covers.ofStrict rfl exact]
          · simp at negated
      | _ => exact leaves _ _ (.here strict _) rfl _ found

theorem Placed.trans {outer middle lower : Bool}
    {node between inner : Node} (upper : translator.Placed outer node middle between)
    (below : translator.Placed middle between lower inner) :
    translator.Placed outer node lower inner := by
  induction upper with
  | here => exact below
  | conjunct member found _ ih => exact .conjunct member found (ih below)
  | disjunct member _ ih => exact .disjunct member (ih below)
  | negated _ ih => exact .negated (ih below)

theorem Placed.within {strict strict' : Bool} {node inner : Node}
    (placed : translator.Placed strict node strict' inner) : Node.Within inner node := by
  induction placed with
  | here => exact .refl _
  | conjunct member _ _ ih => exact .child member ih
  | disjunct member _ ih => exact .child member ih
  | negated _ ih => exact .child (by simp [Node.children]) ih

/-- A placed condition has a translation, exact when it stands under a negation. -/
theorem Placed.found {strict strict' : Bool} {node inner : Node}
    (placed : translator.Placed strict node strict' inner) {translated : Translated P}
    (found : translator.translate node = some translated)
    (exact : strict = true → translated.exact = true) :
    ∃ part, translator.translate inner = some part ∧ (strict' = true → part.exact = true) := by
  induction placed generalizing translated with
  | here => exact ⟨translated, found, exact⟩
  | @conjunct _ _ expressions child _ member childFound _ ih =>
      rw [translate, translateEach_eq_map] at found
      obtain ⟨part, partIs⟩ := Option.isSome_iff_exists.mp childFound
      refine ih partIs fun isStrict => ?_
      simp only [Translated.foldAnd, Option.bind_eq_bind, Option.bind_eq_some_iff,
        Option.pure_def, Option.some.injEq] at found
      obtain ⟨predicate, -, rfl⟩ := found
      have all := List.all_eq_true.mp (exact isStrict) _ (List.mem_map_of_mem member)
      simpa [partIs] using all
  | @disjunct _ _ expressions child _ member _ ih =>
      rw [translate, translateEach_eq_map] at found
      simp only [Translated.foldOr, Option.bind_eq_bind, Option.bind_eq_some_iff,
        Option.pure_def, Option.some.injEq] at found
      obtain ⟨parts, all, predicate, -, rfl⟩ := found
      have each := forall₂_of_mapM all
      rw [List.forall₂_map_left_iff] at each
      obtain ⟨part, partMember, partIs⟩ := exists_related_of_mem each.flip member
      exact ih partIs fun isStrict => List.all_eq_true.mp (exact isStrict) part partMember
  | negated _ ih =>
      simp only [translate, Option.bind_eq_bind, Option.bind_eq_some_iff] at found
      obtain ⟨part, partIs, negated⟩ := found
      refine ih partIs fun _ => ?_
      split at negated
      · next isExact => exact isExact
      · simp at negated

end Translator

end LakehouseEngine
