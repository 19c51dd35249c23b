import EquationExport.Proofs.Omml.Faithful
import EquationExport.Proofs.Omml.Integrand
import EquationExport.Proofs.Omml.Lasting

/-!
# Changes at one place

A repair changes a few neighbours at a time, wherever in a tree these stand. A relation between old and new neighbours
may be kept along several changes, beside other neighbours and inside elements. Then it relates a tree to what a
repair makes of it, as soon as it relates what the repair changes at one place.
-/

namespace EquationExport.Omml

open Xml Xml.Node Repair

/-- The relation is kept by changes one after the other, beside other neighbours and inside elements. -/
structure Congruence (K : List Node → List Node → Prop) : Prop where
  refl : ∀ l, K l l
  trans : ∀ {a b c}, K a b → K b c → K a c
  append : ∀ {a a' b b'}, K a a' → K b b' → K (a ++ b) (a' ++ b')
  inside : ∀ {tag text l l' tail}, K l l' → K [element tag text l tail] [element tag text l' tail]

variable {K : List Node → List Node → Prop} {rule : SpanRule} {shape : Shape}

/-! ### Nodes that keep their names -/

/-- Two nodes have one name. -/
def SameName (old new : Node) : Prop := new.name? = old.name?

theorem SameName.isNamed {old new : Node} (h : SameName old new) (name : Text) : new.isNamed name = old.isNamed name := by
  rw [Node.isNamed, Node.isNamed, h]

theorem SameName.isRun {old new : Node} (h : SameName old new) : new.isRun = old.isRun := h.isNamed "r"

theorem SameName.isOneOf {old new : Node} (h : SameName old new) (names : List Text) :
    new.isOneOf names = old.isOneOf names := by
  rw [Node.isOneOf, Node.isOneOf, funext h.isNamed]

theorem sameName_wrapBasesAmong (l : List Node) : List.Forall₂ SameName l (wrapBasesAmong l) := by
  rw [wrapBasesAmong_eq_map]
  exact List.forall₂_map_right_iff.2 (List.forall₂_same.2 fun n _ => name?_wrapBases n)

theorem sameName_sweepNodes (rule : SpanRule) (nodes : List Node) :
    List.Forall₂ SameName nodes (sweepNodes rule nodes).1 := by
  rw [sweepNodes_eq_map]
  exact List.forall₂_map_right_iff.2 (List.forall₂_same.2 fun n _ => name?_sweepNode rule n)

theorem sameName_delimiter (opening closing : Text) (a b : List Node) :
    SameName (delimiter opening closing a) (delimiter opening closing b) := by
  rw [SameName, delimiter_eq, delimiter_eq]
  rfl

/-- Objects between two runs, as they stand after a change inside each of them. -/
theorem exists_between_of_sameName {first last : Node} {inner out : List Node}
    (h : List.Forall₂ SameName (first :: (inner ++ [last])) out) (hfirst : first.isRun = true)
    (hlast : last.isRun = true) : ∃ first' inner' last', out = first' :: (inner' ++ [last']) ∧
      first'.isRun = true ∧ last'.isRun = true ∧ List.Forall₂ SameName inner inner' := by
  cases h with
  | @cons _ first' _ rest hname hrest =>
    obtain ⟨inner', ends, rfl, hinner, hends⟩ := exists_append_of_forall₂ hrest
    cases hends with
    | @cons _ last' _ none hname' hnone =>
      cases hnone
      exact ⟨first', inner', last', rfl, by rw [hname.isRun, hfirst], by rw [hname'.isRun, hlast], hinner⟩

namespace Congruence

/-! ### Trees -/

section Trees

variable (hK : Congruence K)
include hK

theorem cons {n n' : Node} {b b' : List Node} (hn : K [n] [n']) (hb : K b b') : K (n :: b) (n' :: b') := hK.append hn hb

/-- A change of the nodes of a tree, from the leaves up. -/
theorem rebuildAll {f : Node → List Node} (hf : ∀ n, K [n] (f n)) (nodes : List Node) : K nodes (rebuildAll f nodes) := by
  induction nodes using forest_induction with
  | nil => exact hK.refl []
  | element tag text children tail rest ihc ihr => exact hK.append (hK.trans (hK.inside ihc) (hf _)) ihr
  | comment content tail rest ih | instruction target content tail rest ih => exact hK.append (hf _) ih

/-- Nodes are left out of a whole tree. -/
theorem pruneAll {keep : Option Tag → Node → Bool} (hdrop : ∀ tag n, keep tag n = false → K [n] []) (nodes : List Node) :
    ∀ tag, K nodes (pruneAll keep tag nodes) := by
  induction nodes using forest_induction with
  | nil => exact fun _ => hK.refl []
  | element name text children tail rest ihc ihr =>
    intro tag
    rw [Xml.pruneAll]
    split
    · exact hK.cons (hK.inside (ihc (some name))) (ihr tag)
    · next hkeep => exact hK.append (hdrop tag _ (Bool.not_eq_true _ ▸ hkeep)) (ihr tag)
  | comment content tail rest ih | instruction target content tail rest ih =>
    intro tag
    rw [Xml.pruneAll]
    split
    · exact hK.cons (hK.refl _) (ih tag)
    · next hkeep => exact hK.append (hdrop tag _ (Bool.not_eq_true _ ▸ hkeep)) (ih tag)

/-! ### Bars with digits -/

theorem splitFirstAmong? (hsplit : ∀ n new, splitNormRun? n = some new → K [n] new) (nodes : List Node) :
    ∀ new, splitFirstAmong? nodes = some new → K nodes new := by
  induction nodes using forest_induction with
  | nil => exact fun new hnew => by cases hnew
  | element tag text children tail rest ihc ihr =>
    intro new hnew
    simp only [Repair.splitFirstAmong?, splitFirstIn?] at hnew
    split at hnew
    · next inside hinside =>
      obtain rfl := Option.some.inj hnew
      refine hK.append (show K [element tag text children tail] inside from ?_) (hK.refl rest)
      split at hinside
      · next split hpieces =>
        obtain rfl := Option.some.inj hinside
        exact hsplit _ _ hpieces
      · obtain ⟨children', hchildren, rfl⟩ := Option.map_eq_some_iff.1 hinside
        exact hK.inside (ihc _ hchildren)
    · obtain ⟨rest', hrest', rfl⟩ := Option.map_eq_some_iff.1 hnew
      exact hK.cons (hK.refl _) (ihr rest' hrest')
  | comment content tail rest ih | instruction target content tail rest ih =>
    intro new hnew
    simp only [Repair.splitFirstAmong?, splitFirstIn?] at hnew
    obtain ⟨rest', hrest', rfl⟩ := Option.map_eq_some_iff.1 hnew
    exact hK.cons (hK.refl _) (ih rest' hrest')

theorem splitNormRunsFor (hsplit : ∀ n new, splitNormRun? n = some new → K [n] new) (rounds : Nat) (nodes : List Node) :
    K nodes (splitNormRunsFor rounds nodes) := by
  induction rounds generalizing nodes with
  | zero => exact hK.refl nodes
  | succ rounds ih =>
    rw [Repair.splitNormRunsFor]
    split
    · next new hnew => exact hK.trans (hK.splitFirstAmong? hsplit nodes new hnew) (ih new)
    · exact hK.refl nodes

/-! ### Bodies of operators -/

theorem adoptAmong_of_inside (happend : ∀ n run, n.isNamed "nary" = true → run.isRun = true → K [n, run] [appendToBody n run]) :
    ∀ nodes : List Node, (∀ n ∈ nodes, K [n] [adoptInside n]) → K nodes (adoptAmong nodes)
  | [], _ => hK.refl []
  | [node], h => h node (by simp)
  | node :: next :: rest, h => by
    rw [adoptAmong]
    split
    · next hadopts =>
      obtain ⟨hlacks, hadoptable⟩ := Bool.and_eq_true_iff.1 hadopts
      have hnary : node.isNamed "nary" = true := (Bool.and_eq_true_iff.1 hlacks).1
      have hrun : next.isRun = true := isRun_of_isAdoptable hadoptable
      have hinside : K [node, next] [adoptInside node, adoptInside next] := hK.cons (h node (by simp)) (h next (by simp))
      have hadopt : K [adoptInside node, adoptInside next] [appendToBody (adoptInside node) (adoptInside next)] :=
        happend _ _ (by rw [isNamed_adoptInside, hnary]) (by rw [isRun, isNamed_adoptInside, ← isRun, hrun])
      exact hK.append (hK.trans hinside hadopt) (adoptAmong_of_inside happend rest fun n hn => h n (by simp [hn]))
    · exact hK.cons (h node (by simp))
        (adoptAmong_of_inside happend (next :: rest) fun n hn => h n (List.mem_cons_of_mem _ hn))

theorem adoptAmong (hensure : ∀ n, K [n] [ensureBody n])
    (happend : ∀ n run, n.isNamed "nary" = true → run.isRun = true → K [n, run] [appendToBody n run]) (nodes : List Node) :
    K nodes (adoptAmong nodes) := by
  suffices hinside : ∀ n, K [n] [adoptInside n] from hK.adoptAmong_of_inside happend nodes fun n _ => hinside n
  intro n
  induction n using tree_induction with
  | element tag text children tail ih =>
    rw [adoptInside]
    exact hK.trans (hK.inside (hK.adoptAmong_of_inside happend children ih)) (hensure _)
  | comment | instruction => exact hK.refl _

/-! ### Bases between delimiters -/

/-- The base of scripts with its content between delimiters, where that was between runs. -/
theorem wrappedBase (henclose : ∀ opening closing first inner last, first.isRun = true → last.isRun = true →
    K (first :: (inner ++ [last])) [delimiter opening closing inner]) {base : Node} {opening closing : Text}
    (hbase : base.isNamed "e" = true) (hends : outerDelimiters? base.children = some (opening, closing)) :
    K [wrapBases base] [(wrapBases base).withChildren [delimiter opening closing (interior (wrapBases base).children)]] := by
  cases base with
  | element tag text children tail =>
    obtain ⟨first, inner, last, rfl, hfirst, hpair, -, hlast⟩ := exists_of_outerDelimiters? hends
    have hfirstrun : first.isRun = true :=
      isRun_of_glyphs (by rw [hfirst]; exact ne_nil_of_length (length_of_closing? hpair).1)
    obtain ⟨first', inner', last', heq, hfirst', hlast', -⟩ :=
      exists_between_of_sameName (sameName_wrapBasesAmong (first :: (inner ++ [last]))) hfirstrun hlast
    rw [wrapBases_element (isScript_of_isNamed hbase (by decide)), withChildren_element, children_element, heq,
      interior_cons_append]
    exact hK.inside (henclose opening closing first' inner' last' hfirst' hlast')
  | comment | instruction => cases hbase

theorem wrapBasesAmong (henclose : ∀ opening closing first inner last, first.isRun = true → last.isRun = true →
    K (first :: (inner ++ [last])) [delimiter opening closing inner]) (nodes : List Node) :
    K nodes (wrapBasesAmong nodes) := by
  induction nodes using forest_induction with
  | nil => exact hK.refl []
  | element tag text children tail rest ihc ihr =>
    refine hK.cons ?_ ihr
    have hinside : K [element tag text children tail] [element tag text (Repair.wrapBasesAmong children) tail] :=
      hK.inside ihc
    rcases wrapBases_cases tag text children tail with
      heq | ⟨front, base, behind, opening, closing, rfl, hbase, hends, heq⟩
    · rw [heq]
      exact hinside
    · rw [heq]
      rw [wrapBasesAmong_append, Repair.wrapBasesAmong] at hinside
      exact hK.trans hinside (hK.inside (hK.append (hK.refl _) (hK.cons (hK.wrappedBase henclose hbase hends) (hK.refl _))))
  | comment content tail rest ih | instruction target content tail rest ih => exact hK.cons (hK.refl _) ih

end Trees

end Congruence

/-! ### Sweeps -/

/-- Where the rule finds a span, the objects of the span are related to what is built of them. -/
structure Relates (K : List Node → List Node → Prop) (rule : SpanRule) (shape : Shape) : Prop where
  covers : ∀ seen span, rule seen = some span → span.Covers 0 seen shape
  name : ∀ old build a b, shape old build → SameName (build a) (build b)
  step : ∀ old build out, shape old build → List.Forall₂ SameName old out → K out [build out]

namespace Congruence

section Sweeps

variable (hK : Congruence K) (hrule : Relates K rule shape)
include hK hrule

/-- One container: the spans are found among the objects as they were, which have the names of those that are there. -/
theorem exhaust (fuel : Nat) (seen out : List Node) (h : List.Forall₂ SameName seen out) :
    K out (exhaust rule fuel seen out).1 := by
  induction fuel generalizing seen out with
  | zero => exact hK.refl out
  | succ fuel ih =>
    rw [Repair.exhaust]
    cases hspan : rule seen with
    | none => exact hK.refl out
    | some span =>
      obtain ⟨front, old, rest, rfl, hstart, hstop, hold⟩ := hrule.covers seen span hspan
      rw [Nat.zero_add] at hstart hstop
      obtain ⟨front', out', rfl, hfront, hout⟩ := exists_append_of_forall₂ h
      obtain ⟨old', rest', rfl, hold', hrest⟩ := exists_append_of_forall₂ hout
      have hseen := Span.collapse_of_covers front old rest hstart hstop
      have hcollapse : span.collapse (front' ++ (old' ++ rest')) = front' ++ span.build old' :: rest' :=
        Span.collapse_of_covers front' old' rest' (by rw [hstart, hfront.length_eq])
          (by rw [hstop, hfront.length_eq, hold'.length_eq])
      have hnext : List.Forall₂ SameName (span.collapse (front ++ (old ++ rest)))
          (span.collapse (front' ++ (old' ++ rest'))) := by
        rw [hseen, hcollapse]
        exact List.rel_append hfront (.cons (hrule.name old span.build old old' hold) hrest)
      have hstep : K (front' ++ (old' ++ rest')) (span.collapse (front' ++ (old' ++ rest'))) := by
        rw [hcollapse]
        exact hK.append (hK.refl front') (hK.append (hrule.step old span.build old' hold hold') (hK.refl rest'))
      exact hK.trans hstep (ih _ _ hnext)

theorem sweepNodes (nodes : List Node) : K nodes (sweepNodes rule nodes).1 := by
  induction nodes using forest_induction with
  | nil => exact hK.refl []
  | element tag text children tail rest ihc ihr =>
    rw [sweepNodes_cons, sweepNode_element]
    refine hK.cons (hK.inside ?_) ihr
    unfold sweepInside
    split
    · exact hK.trans ihc (hK.exhaust hrule _ _ _ (sameName_sweepNodes rule children))
    · exact ihc
  | comment content tail rest ih | instruction target content tail rest ih => exact hK.cons (hK.refl _) ih

theorem sweepFor (sweeps : Nat) (f : Fragment) : K f.children (sweepFor rule sweeps f).1.children := by
  induction sweeps generalizing f with
  | zero => exact hK.refl _
  | succ sweeps ih =>
    have hsweep : K f.children (sweep rule f).1.children :=
      hK.trans (hK.sweepNodes hrule f.children) (hK.exhaust hrule _ _ _ (sameName_sweepNodes rule f.children))
    simp only [Repair.sweepFor]
    split
    · exact hK.trans hsweep (ih _)
    · exact hK.refl _

end Sweeps

end Congruence

/-! ### All repairs -/

/-- Old nodes are related to what each repair makes of them at one place. -/
structure OneStep (K : List Node → List Node → Prop) : Prop where
  foreign : ∀ n, n.isMath = false → K [n] []
  unwrapBox : ∀ n, K [n] (unwrapBox n)
  promoteScript : ∀ n, K [n] [promoteScript n]
  splitNormRun : ∀ n new, splitNormRun? n = some new → K [n] new
  ensureBody : ∀ n, K [n] [ensureBody n]
  appendToBody : ∀ n run, n.isNamed "nary" = true → run.isRun = true → K [n, run] [appendToBody n run]
  placeLimits : ∀ n, K [n] [placeLimits n]
  integral : ∀ sign (lower upper old : List Node), isGlyphOf integralGlyphs sign = true → old ≠ [] →
    (∀ n ∈ old, n.isRun = true) →
    K old [nary sign (lower.map limitOf) (upper.map limitOf) [] (some underOver)]
  enclose : ∀ opening closing first inner last, first.isRun = true → last.isRun = true →
    K (first :: (inner ++ [last])) [delimiter opening closing inner]
  leaveOpen : ∀ opening first inner, first.isRun = true → K (first :: inner) [delimiter opening [] inner]
  dissolveInvalid : ∀ n, K [n] (dissolveInvalid n)
  normalizeTextElement : ∀ n, K [n] [normalizeTextElement n]

/-- The relation is kept by what each repair changes, wherever that stands. -/
structure Steps (K : List Node → List Node → Prop) : Prop extends Congruence K, OneStep K

/-- What follows from two relations that hold of one step holds of it. -/
theorem OneStep.combine {K' L : List Node → List Node → Prop} (h : OneStep K) (h' : OneStep K')
    (hboth : ∀ {a b}, K a b → K' a b → L a b) : OneStep L where
  foreign n hn := hboth (h.foreign n hn) (h'.foreign n hn)
  unwrapBox n := hboth (h.unwrapBox n) (h'.unwrapBox n)
  promoteScript n := hboth (h.promoteScript n) (h'.promoteScript n)
  splitNormRun n new hnew := hboth (h.splitNormRun n new hnew) (h'.splitNormRun n new hnew)
  ensureBody n := hboth (h.ensureBody n) (h'.ensureBody n)
  appendToBody n run hn hrun := hboth (h.appendToBody n run hn hrun) (h'.appendToBody n run hn hrun)
  placeLimits n := hboth (h.placeLimits n) (h'.placeLimits n)
  integral sign lower upper old hsign hold hruns :=
    hboth (h.integral sign lower upper old hsign hold hruns) (h'.integral sign lower upper old hsign hold hruns)
  enclose opening closing first inner last hfirst hlast :=
    hboth (h.enclose opening closing first inner last hfirst hlast) (h'.enclose opening closing first inner last hfirst hlast)
  leaveOpen opening first inner hfirst := hboth (h.leaveOpen opening first inner hfirst) (h'.leaveOpen opening first inner hfirst)
  dissolveInvalid n := hboth (h.dissolveInvalid n) (h'.dissolveInvalid n)
  normalizeTextElement n := hboth (h.normalizeTextElement n) (h'.normalizeTextElement n)

theorem isRun_of_isLimit {limits : List Node} (h : IsLimit limits) : ∀ n ∈ limits, n.isRun = true := by
  rintro n hn
  rcases h with rfl | ⟨node, rfl, hne⟩
  · cases hn
  · rw [List.mem_singleton.1 hn]
    exact isRun_of_glyphs hne

theorem isRun_of_length {node : Node} {t : Text} (h : node.glyphs = t) (hlength : t.length = 1) : node.isRun = true :=
  isRun_of_glyphs (by rw [h]; exact ne_nil_of_length hlength)

/-- Objects that are all runs are so after a change inside each of them. -/
theorem isRun_of_sameName {old out : List Node} (hruns : ∀ n ∈ old, n.isRun = true) (h : List.Forall₂ SameName old out) :
    ∀ n ∈ out, n.isRun = true := by
  induction h with
  | nil => simp
  | cons hn _ ih =>
    refine List.forall_mem_cons.2 ⟨by rw [hn.isRun]; exact hruns _ List.mem_cons_self, ?_⟩
    exact ih fun m hm => hruns m (List.mem_cons_of_mem _ hm)

namespace Steps

variable (h : Steps K)
include h

theorem integralSpan : Relates K (integralSpan 0) IsIntegral where
  covers _ _ := covers_of_integralSpan
  name := by
    rintro old build a b ⟨sign, lower, upper, -, -, -, -, rfl⟩
    rfl
  step := by
    rintro old build out ⟨sign, lower, upper, rfl, hsign, hlower, hupper, rfl⟩ hout
    refine h.integral _ lower upper out hsign (by rintro rfl; cases hout) (isRun_of_sameName (fun n hn => ?_) hout)
    rcases List.mem_cons.1 hn with rfl | hn
    · exact isRun_of_length rfl (length_of_isGlyphOf hsign)
    · exact (List.mem_append.1 hn).elim (isRun_of_isLimit hlower n) (isRun_of_isLimit hupper n)

/-- What stands between two runs is enclosed. -/
theorem enclose_of_sameName {first last : Node} {inner out : List Node} (opening closing : Text) (hfirst : first.isRun = true)
    (hlast : last.isRun = true) (hout : List.Forall₂ SameName (first :: (inner ++ [last])) out) :
    K out [delimiter opening closing (interior out)] := by
  obtain ⟨first', inner', last', rfl, hfirst', hlast', -⟩ := exists_between_of_sameName hout hfirst hlast
  rw [interior_cons_append]
  exact h.enclose opening closing first' inner' last' hfirst' hlast'

theorem bracketSpan : Relates K (bracketSpan 0) IsBracketed where
  covers _ _ := covers_of_bracketSpan
  name := by
    rintro old build a b ⟨opening, inner, last, -, -, -, rfl⟩
    exact sameName_delimiter ..
  step := by
    rintro old build out ⟨opening, inner, last, rfl, hopening, hlast, rfl⟩ hout
    exact h.enclose_of_sameName _ _ (isRun_of_length hopening (by decide)) (isRun_of_length hlast (by decide)) hout

theorem braceSpan : Relates K (braceSpan 0) IsBraced where
  covers _ _ := covers_of_braceSpan
  name := by
    rintro old build a b (⟨brace, matrix, last, -, -, -, rfl⟩ | ⟨brace, matrix, -, -, rfl⟩)
    · exact sameName_delimiter ..
    · exact sameName_delimiter ..
  step := by
    rintro old build out (⟨brace, matrix, last, rfl, hbrace, hlast, rfl⟩ | ⟨brace, matrix, rfl, hbrace, rfl⟩) hout
    · exact h.enclose_of_sameName _ _ (isRun_of_length hbrace (by decide)) (isRun_of_length hlast (by decide))
        (show List.Forall₂ SameName (brace :: ([matrix] ++ [last])) out from hout)
    · cases hout with
      | @cons _ first _ rest hfirst hrest =>
        exact h.leaveOpen _ first rest (by rw [hfirst.isRun]; exact isRun_of_length hbrace (by decide))

theorem promotionSpan : Relates K (promotionSpan 0) IsPromoted where
  covers _ _ := covers_of_promotionSpan
  name := by
    rintro old build a b ⟨opening, tall, last, close, -, -, -, rfl⟩
    exact sameName_delimiter ..
  step := by
    rintro old build out ⟨opening, tall, last, close, rfl, hpair, hlast, rfl⟩ hout
    obtain ⟨hopening, hclose⟩ := length_of_closing? hpair
    exact h.enclose_of_sameName _ _ (isRun_of_length rfl hopening) (isRun_of_length hlast hclose)
      (show List.Forall₂ SameName (opening :: ([tall] ++ [last])) out from hout)

omit h in
/-- Flattened fractions are found between runs. -/
theorem fractionSpan (hfraction : ∀ opening closing (out : List Node), (∃ n ∈ out, n.isRun = true) →
    K out [bracketedFraction opening closing out]) : Relates K (fractionSpan 0) IsFlattened where
  covers _ _ := covers_of_fractionSpan
  name := by
    rintro old build a b ⟨opening, integral, text, plus, sum, last, close, -, -, rfl⟩
    exact sameName_delimiter ..
  step := by
    rintro old build out ⟨opening, integral, text, plus, sum, last, close, rfl, hflattened, rfl⟩ hout
    cases hout with
    | @cons _ first _ rest hfirst hrest =>
      refine hfraction _ _ _ ⟨first, List.mem_cons_self, ?_⟩
      rw [hfirst.isRun]
      exact isRun_of_length rfl (length_of_closing? hflattened.pair).1

/-- Each repair, but for the removal of undefined properties. -/
theorem apply (rule : RepairRule) (state : RepairState) (f : Fragment)
    (hfraction : rule = .rebuildFractions → ∀ opening closing (out : List Node), (∃ n ∈ out, n.isRun = true) →
      K out [bracketedFraction opening closing out])
    (hundefined : rule = .removeUndefinedStyles → K f.children (removeUndefinedStyles f).children) :
    K f.children (rule.apply state f).1.children := by
  have hK := h.toCongruence
  cases rule with
  | stripForeign => exact hK.pruneAll (fun _ n hkeep => h.foreign n hkeep) f.children none
  | unwrapBoxes => exact hK.rebuildAll h.unwrapBox f.children
  | rebuildIntegrals =>
    let promoted : Fragment := { f with children := Xml.rebuildAll (fun n => [Repair.promoteScript n]) f.children }
    have hscripts : K f.children promoted.children := hK.rebuildAll h.promoteScript f.children
    exact hK.trans hscripts (hK.sweepFor h.integralSpan maxSweeps promoted)
  | repairNorms => exact hK.splitNormRunsFor h.splitNormRun maxNormRounds f.children
  | adoptIntegrands => exact hK.adoptAmong h.ensureBody h.appendToBody f.children
  | placeIntegralLimits => exact hK.rebuildAll h.placeLimits f.children
  | wrapScriptBases => exact hK.wrapBasesAmong h.enclose f.children
  | wrapBrackets => exact hK.sweepFor h.bracketSpan maxSweeps f
  | wrapBraces => exact hK.sweepFor h.braceSpan maxSweeps f
  | rebuildFractions => exact hK.sweepFor (Steps.fractionSpan (hfraction rfl)) maxSweeps f
  | promoteDelimiters =>
    rw [RepairRule.apply]
    split
    · exact hK.refl _
    · exact hK.sweepFor h.promotionSpan maxSweeps f
  | repairInvalidScripts =>
    exact hK.trans (hK.rebuildAll h.dissolveInvalid f.children) (hK.rebuildAll h.dissolveInvalid _)
  | removeUndefinedStyles => exact hundefined rfl
  | normalizeTexts => exact hK.rebuildAll h.normalizeTextElement f.children

theorem foldl (rules : List RepairRule)
    (hfraction : .rebuildFractions ∈ rules → ∀ opening closing (out : List Node), (∃ n ∈ out, n.isRun = true) →
      K out [bracketedFraction opening closing out])
    (hundefined : .removeUndefinedStyles ∈ rules → ∀ f : Fragment, K f.children (removeUndefinedStyles f).children)
    (start : Fragment × RepairState) :
    K start.1.children (rules.foldl (fun (f, state) rule => rule.apply state f) start).1.children := by
  induction rules generalizing start with
  | nil => exact h.refl _
  | cons rule rules ih =>
    refine h.trans (h.apply rule start.2 start.1 (fun heq => hfraction (heq ▸ List.mem_cons_self)) fun heq => ?_)
      (ih (fun hmem => hfraction (List.mem_cons_of_mem _ hmem)) (fun hmem => hundefined (List.mem_cons_of_mem _ hmem)) _)
    exact hundefined (heq ▸ List.mem_cons_self) start.1

end Steps

/-! ### Properties of single nodes -/

variable {P : Node → Prop}

/-- What every node has goes on to every new node, if it does not depend on children. -/
theorem congruence_of_local (hP : Local P) : Congruence fun old new => Everywhere P old → Everywhere P new where
  refl _ h := h
  trans hab hbc h := hbc (hab h)
  append hab hcd h := everywhere_append.2 ((everywhere_append.1 h).imp hab hcd)
  inside hl h := by
    obtain ⟨hroot, hbelow⟩ := everywhere_singleton.1 h
    exact everywhere_singleton.2 ⟨hP _ _ _ _ _ hroot, hl hbelow⟩

/-- Limits are runs without properties. -/
theorem everywhere_limits (hrun : ∀ text, Everywhere P [plainRun text]) (limits : List Node) :
    Everywhere P (limits.map limitOf) := by
  refine everywhere_iff_of_mem.2 fun n hn => ?_
  obtain ⟨object, -, rfl⟩ := List.mem_map.1 hn
  exact hrun _

theorem Lasting.plainRun (h : Lasting (fun _ => True) P) (text : Text) : Everywhere P [plainRun text] :=
  h.run (fun _ _ => trivial) everywhere_nil

/-- What lasts whatever the texts are is kept by each repair. -/
theorem Lasting.steps (h : Lasting (fun _ => True) P) : Steps fun old new => Everywhere P old → Everywhere P new where
  toCongruence := congruence_of_local h.isLocal
  foreign _ _ _ := everywhere_nil
  unwrapBox := Lasting.unwrapBox
  promoteScript := h.promoteScript
  splitNormRun _ _ := h.splitNormRun?
  ensureBody _ := h.ensureBody
  appendToBody _ _ _ _ hold := h.appendToBody (everywhere_cons.1 hold).1 (everywhere_cons.1 hold).2
  placeLimits := h.placeLimits
  integral _ lower upper _ _ _ _ _ :=
    h.nary (fun _ _ => trivial) (fun _ _ => trivial) (everywhere_limits h.plainRun lower) (everywhere_limits h.plainRun upper)
      everywhere_nil rfl
  enclose _ _ _ _ _ _ _ hold :=
    h.delimiter (fun _ _ => trivial) (fun _ _ => trivial) (everywhere_append.1 (everywhere_cons.1 hold).2).1
  leaveOpen _ _ _ _ hold := h.delimiter (fun _ _ => trivial) (fun _ _ => trivial) (everywhere_cons.1 hold).2
  dissolveInvalid := Lasting.dissolveInvalid
  normalizeTextElement := h.normalizeTextElement

end EquationExport.Omml
