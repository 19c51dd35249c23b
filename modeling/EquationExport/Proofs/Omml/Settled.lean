import EquationExport.Proofs.Omml.Base
import EquationExport.Proofs.Omml.Fraction
import EquationExport.Proofs.Omml.Reduce

/-!
# Fragments that are settled

A fragment is settled if no repair but the last finds anything to do in it: no node is of the kind that a repair of
single nodes looks for, and no container holds a span. All that the repairs do to a settled fragment is to clean its
texts. Part of what they look for may be there again at the end, made by a later repair or out of reach of a bounded
one. Part of it is never left.
-/

namespace EquationExport.Omml

open Xml Xml.Node Repair

/-! ### What the repairs look for -/

/-- A box that passes on one slot. -/
def isPassingBox (node : Node) : Bool :=
  node.isNamed "box" && match node.children with
    | [slot] => slot.isNamed "e"
    | _ => false

/-- Scripts on a large operator. -/
def isScriptedOperator (node : Node) : Bool :=
  node.isScript && match slotChildren node "e" with
    | [base] => isGlyphOf largeOperators base.glyphs
    | _ => false

/-- The first of two neighbours takes the second for its body. -/
def adopts (node next : Node) : Bool := lacksBody node && isAdoptable next

/-- The limits of the operator are under and over its sign by its first properties. -/
def hasPlacedLimits (node : Node) : Bool :=
  (((node.slot? "naryPr").bind (·.slot? "limLoc")).bind (·.tag?)).any fun tag => tag.setAttribute valueName underOver == tag

/-- Scripts with all their slots. -/
def isWholeScript (node : Node) : Bool :=
  (node.slot? "e").isSome && (requiredSlots node).all fun name => (node.slot? name).isSome

/-- A group of properties with one that is the word `undefined`. -/
def holdsUndefined (node : Node) : Bool := node.tag?.any isPropertyGroup && node.children.any isUndefined

/-- The node is not left out as an undefined property of its parent. -/
abbrev keepsDefined (parent : Option Tag) (node : Node) : Bool := !(parent.any isPropertyGroup && isUndefined node)

/-- Nothing that a repair of single nodes may leave undone is to be done at the node. -/
structure IsDone (node : Node) : Prop where
  box : isPassingBox node = false
  operator : isScriptedOperator node = false
  bar : (splitNormRun? node).isNone = true
  adopted : node.children.IsChain fun a b => adopts a b = false
  limits : isNaryOf integralGlyphs node = true → hasPlacedLimits node = true
  base : node.isScript = true → ((node.slot? "e").bind fun base => outerDelimiters? base.children) = none
  runProperties : isEmptyRunProperties node = false

/-- Nothing that the repairs always do is to be done at the node. -/
structure IsComplete (node : Node) : Prop where
  body : node.isNamed "nary" = true → (node.slot? "e").isSome = true
  script : node.isScript = true → isWholeScript node = true
  styles : holdsUndefined node = false

/-- No repair of single nodes finds anything to do at the node. -/
structure IsSettled (node : Node) : Prop extends IsDone node, IsComplete node

/-- No container holds a span of the rule. -/
def Fragment.HoldsNone (f : Fragment) (rule : SpanRule) : Prop := ∀ c ∈ f.containers, (rule c.children).isNone = true

/-- Nothing that a repair may leave undone is to be done. -/
structure Fragment.Done (f : Fragment) : Prop where
  nodes : Everywhere IsDone f.children
  adopted : f.children.IsChain fun a b => adopts a b = false
  integrals : f.HoldsNone (integralSpan 0)
  brackets : f.HoldsNone (bracketSpan 0)
  braces : f.HoldsNone (braceSpan 0)
  fractions : f.HoldsNone (fractionSpan 0)
  /-- Delimiters are not stretched where a fraction stands at the top. -/
  delimiters : f.hasTopLevelFraction = true ∨ f.HoldsNone (promotionSpan 0)

/-- No repair but the cleaning of texts finds anything to do. -/
structure Fragment.Settled (f : Fragment) : Prop extends f.Done where
  complete : Everywhere IsComplete f.children

instance (node : Node) : Decidable (IsDone node) :=
  decidable_of_iff (isPassingBox node = false ∧ isScriptedOperator node = false ∧ (splitNormRun? node).isNone = true ∧
      (node.children.IsChain fun a b => adopts a b = false) ∧
      (isNaryOf integralGlyphs node = true → hasPlacedLimits node = true) ∧
      (node.isScript = true → ((node.slot? "e").bind fun base => outerDelimiters? base.children) = none) ∧
      isEmptyRunProperties node = false)
    ⟨fun ⟨h1, h2, h3, h4, h5, h6, h7⟩ => ⟨h1, h2, h3, h4, h5, h6, h7⟩,
      fun ⟨h1, h2, h3, h4, h5, h6, h7⟩ => ⟨h1, h2, h3, h4, h5, h6, h7⟩⟩

instance (f : Fragment) (rule : SpanRule) : Decidable (f.HoldsNone rule) :=
  inferInstanceAs (Decidable (∀ c ∈ f.containers, (rule c.children).isNone = true))

instance (f : Fragment) : Decidable f.Done :=
  decidable_of_iff (Everywhere IsDone f.children ∧ (f.children.IsChain fun a b => adopts a b = false) ∧
      f.HoldsNone (integralSpan 0) ∧ f.HoldsNone (bracketSpan 0) ∧ f.HoldsNone (braceSpan 0) ∧
      f.HoldsNone (fractionSpan 0) ∧ (f.hasTopLevelFraction = true ∨ f.HoldsNone (promotionSpan 0)))
    ⟨fun ⟨h1, h2, h3, h4, h5, h6, h7⟩ => ⟨h1, h2, h3, h4, h5, h6, h7⟩,
      fun ⟨h1, h2, h3, h4, h5, h6, h7⟩ => ⟨h1, h2, h3, h4, h5, h6, h7⟩⟩

variable {node : Node} {l : List Node} {f : Fragment}

/-! ### Single nodes -/

theorem rebuildAll_of_everywhere {F : Node → List Node} :
    Everywhere (fun n => F n = [n]) l → rebuildAll F l = l := by
  induction l using forest_induction with
  | nil => exact fun _ => rfl
  | element tag text children tail rest ihc ihr =>
    intro h
    obtain ⟨hnode, hrest⟩ := everywhere_cons.1 h
    obtain ⟨hroot, hbelow⟩ := everywhere_singleton.1 hnode
    rw [rebuildAll, Node.rebuild, ihc hbelow, hroot, ihr hrest, List.singleton_append]
  | comment content tail rest ih | instruction target content tail rest ih =>
    intro h
    obtain ⟨hnode, hrest⟩ := everywhere_cons.1 h
    rw [rebuildAll, Node.rebuild, (everywhere_singleton.1 hnode).1, ih hrest, List.singleton_append]

theorem unwrapBox_of_not_passing (h : isPassingBox node = false) : unwrapBox node = [node] := by
  unfold unwrapBox
  split
  · next slot hbox hchildren =>
    rw [isPassingBox, hbox, hchildren, Bool.true_and] at h
    exact if_neg (Bool.eq_false_iff.1 h)
  · rfl

theorem promoteScript_of_not_operator (h : isScriptedOperator node = false) : promoteScript node = node := by
  unfold promoteScript
  split
  · next hscript =>
    split
    · next base hbase =>
      rw [isScriptedOperator, hscript, hbase, Bool.true_and] at h
      dsimp only
      rw [if_neg (Bool.eq_false_iff.1 h)]
    · rfl
  · rfl

theorem dissolveInvalid_of_whole (h : node.isScript = true → isWholeScript node = true) : dissolveInvalid node = [node] := by
  unfold dissolveInvalid
  split
  · next hscript =>
    obtain ⟨hbase, hslots⟩ := Bool.and_eq_true_iff.1 (h hscript)
    obtain ⟨base, hbase⟩ := Option.isSome_iff_exists.1 hbase
    rw [hbase]
    exact if_pos hslots
  · rfl

theorem modifyFirst_of_find? {p : Node → Bool} {F : Node → Node} (h : ∀ n, l.find? p = some n → F n = n) :
    modifyFirst p F l = l := by
  induction l with
  | nil => rfl
  | cons n l ih =>
    rw [modifyFirst]
    split
    · next hp => rw [h n (List.find?_cons_of_pos hp)]
    · next hp => rw [ih fun m hm => h m (by rw [List.find?_cons_of_neg hp, hm])]

@[simp] theorem withChildren_children (node : Node) : node.withChildren node.children = node := by cases node <;> rfl

/-- Setting a property to the value that it has changes nothing. -/
theorem setProperty_of_set {group name value : Text} {g p : Node} (hgroup : node.slot? group = some g)
    (hproperty : g.slot? name = some p) (hset : ∀ tag, p.tag? = some tag → tag.setAttribute valueName value = tag) :
    node.setProperty group name value = node := by
  have hensure : node.ensureProperty group name = node := by
    have hg : node.ensureGroup group = node := by rw [ensureGroup, hgroup]; rfl
    rw [ensureProperty, hg, modifyFirst_of_find?, withChildren_children]
    intro n hn
    obtain rfl : g = n := Option.some.inj (hgroup.symm.trans hn)
    rw [hproperty]
    rfl
  have hp : p.setAttribute valueName value = p := by
    cases p with
    | element tag text l tail => rw [Node.setAttribute, hset tag rfl]
    | comment | instruction => rfl
  rw [setProperty, hensure, modifyFirst_of_find?, withChildren_children]
  intro n hn
  obtain rfl : g = n := Option.some.inj (hgroup.symm.trans hn)
  rw [modifyFirst_of_find?, withChildren_children]
  intro m hm
  obtain rfl : p = m := Option.some.inj (hproperty.symm.trans hm)
  exact hp

theorem placeLimits_of_placed (h : isNaryOf integralGlyphs node = true → hasPlacedLimits node = true) :
    placeLimits node = node := by
  unfold placeLimits
  split
  · next hnary =>
    obtain ⟨tag, htag, hset⟩ := (Option.any_eq_true _ _).1 (h hnary)
    obtain ⟨p, hp, htag⟩ := Option.bind_eq_some_iff.1 htag
    obtain ⟨g, hg, hp⟩ := Option.bind_eq_some_iff.1 hp
    refine setProperty_of_set hg hp fun tag' htag' => ?_
    obtain rfl : tag = tag' := Option.some.inj (htag.symm.trans htag')
    exact beq_iff_eq.1 hset
  · rfl

/-! ### Neighbours and trees -/

theorem splitFirstAmong?_of_everywhere : Everywhere (fun n => (splitNormRun? n).isNone = true) l → splitFirstAmong? l = none := by
  induction l using forest_induction with
  | nil => exact fun _ => rfl
  | element tag text children tail rest ihc ihr =>
    intro h
    obtain ⟨hnode, hrest⟩ := everywhere_cons.1 h
    obtain ⟨hroot, hbelow⟩ := everywhere_singleton.1 hnode
    rw [splitFirstAmong?, splitFirstIn?, Option.isNone_iff_eq_none.1 hroot, ihc hbelow, ihr hrest]
    rfl
  | comment content tail rest ih | instruction target content tail rest ih =>
    intro h
    simp only [splitFirstAmong?, splitFirstIn?, ih (everywhere_cons.1 h).2, Option.map_none]

theorem map_eq_self {F : Node → Node} (h : ∀ n ∈ l, F n = n) : l.map F = l :=
  (List.map_congr_left h).trans (List.map_id l)

theorem adoptAmong_of_isChain (h : l.IsChain fun a b => adopts a b = false) : adoptAmong l = l.map adoptInside := by
  induction l with
  | nil => rfl
  | cons node l ih =>
    cases l with
    | nil => rfl
    | cons next rest =>
      obtain ⟨hpair, hrest⟩ := List.isChain_cons_cons.1 h
      rw [adopts] at hpair
      rw [adoptAmong, if_neg (Bool.eq_false_iff.1 hpair), ih hrest, List.map_cons, List.map_cons,
        List.map_cons]

theorem adoptInside_of_everywhere (node : Node) : Everywhere IsSettled [node] → adoptInside node = node := by
  induction node using tree_induction with
  | element tag text children tail ih =>
    intro h
    obtain ⟨hroot, hbelow⟩ := everywhere_singleton.1 h
    have hchildren : adoptAmong children = children :=
      (adoptAmong_of_isChain hroot.adopted).trans (map_eq_self fun n hn => ih n hn (hbelow.of_mem hn))
    rw [adoptInside, hchildren, ensureBody, if_neg]
    intro hlacks
    obtain ⟨hnary, hnone⟩ := Bool.and_eq_true_iff.1 hlacks
    rw [Option.isNone_iff_eq_none] at hnone
    have hsome := hroot.body hnary
    rw [hnone] at hsome
    cases hsome
  | comment content tail | instruction target content tail => exact fun _ => rfl

theorem wrapBasesAmong_of_everywhere : Everywhere IsSettled l → wrapBasesAmong l = l := by
  induction l using forest_induction with
  | nil => exact fun _ => rfl
  | element tag text children tail rest ihc ihr =>
    intro h
    obtain ⟨hnode, hrest⟩ := everywhere_cons.1 h
    obtain ⟨hroot, hbelow⟩ := everywhere_singleton.1 hnode
    rw [wrapBasesAmong, ihr hrest, wrapBases]
    simp only [ihc hbelow]
    split
    · next opening closing hscript hends =>
      rw [hroot.base hscript] at hends
      cases hends
    · rfl
  | comment content tail rest ih | instruction target content tail rest ih =>
    intro h
    rw [wrapBasesAmong, ih (everywhere_cons.1 h).2]
    rfl

theorem pruneAll_of_children {keep : Option Tag → Node → Bool} :
    ∀ parent, (∀ n ∈ l, keep parent n = true) → Everywhere (fun n => ∀ c ∈ n.children, keep n.tag? c = true) l →
      pruneAll keep parent l = l := by
  induction l using forest_induction with
  | nil => exact fun _ _ _ => rfl
  | element tag text children tail rest ihc ihr =>
    intro parent hkeep h
    obtain ⟨hnode, hrest⟩ := everywhere_cons.1 h
    obtain ⟨hroot, hbelow⟩ := everywhere_singleton.1 hnode
    rw [pruneAll, if_pos (hkeep _ List.mem_cons_self), ihr parent (fun n hn => hkeep n (List.mem_cons_of_mem _ hn)) hrest,
      Node.prune, ihc (some tag) hroot hbelow]
  | comment content tail rest ih | instruction target content tail rest ih =>
    intro parent hkeep h
    rw [pruneAll, if_pos (hkeep _ List.mem_cons_self),
      ih parent (fun n hn => hkeep n (List.mem_cons_of_mem _ hn)) (everywhere_cons.1 h).2]
    rfl

/-! ### Cleaning texts -/

theorem name?_normalizeTextElement (node : Node) : (normalizeTextElement node).name? = node.name? := by
  cases node with
  | element tag text children tail =>
    rw [normalizeTextElement]
    split
    · dsimp only
      split
      · exact congrArg some (Tag.name_setAttribute ..)
      · rfl
    · rfl
  | comment | instruction => rfl

theorem normalizeTextElement_eq_self {node : Node} (h : node.isNamed "t" = false) : normalizeTextElement node = node := by
  cases node with
  | element => rw [normalizeTextElement, if_neg (by rw [h]; decide)]
  | comment | instruction => rfl

theorem children_normalizeTextElement (node : Node) : (normalizeTextElement node).children = node.children := by
  cases node with
  | element tag text children tail =>
    rw [normalizeTextElement]
    split <;> rfl
  | comment | instruction => rfl

/-- Cleaning texts leaves the names of all elements. -/
theorem everywhere_normalizeTexts {P : Node → Prop} (hP : ByName P) (l : List Node) :
    Everywhere P (rebuildAll (fun node => [normalizeTextElement node]) l) ↔ Everywhere P l := by
  induction l using forest_induction with
  | nil => exact Iff.rfl
  | element tag text children tail rest ihc ihr =>
    rw [rebuildAll, Node.rebuild, List.singleton_append, everywhere_cons, everywhere_cons (b := rest), everywhere_singleton,
      everywhere_singleton, ihr, children_normalizeTextElement]
    have hname : (normalizeTextElement (element tag text (rebuildAll (fun node => [normalizeTextElement node]) children) tail)).name? =
        (element tag text children tail).name? := name?_normalizeTextElement _
    exact and_congr_left' (and_congr ⟨hP _ _ hname, hP _ _ hname.symm⟩ ihc)
  | comment content tail rest ih | instruction target content tail rest ih =>
    rw [rebuildAll, Node.rebuild, List.singleton_append, everywhere_cons, everywhere_cons (b := rest), ih]
    rfl

/-! ### All repairs but the last -/

namespace Fragment

theorem sweep_snd_eq_false_iff {rule : SpanRule} (hnil : rule [] = none) : (sweep rule f).2 = false ↔ f.HoldsNone rule := by
  rw [Bool.eq_false_iff, ne_eq, sweep_snd_iff hnil, not_exists]
  refine forall_congr' fun c => ?_
  rw [not_and, Bool.not_eq_true, Option.isSome_eq_false_iff]

theorem HoldsNone.sweepUntilStable {rule : SpanRule} (hnil : rule [] = none) (h : f.HoldsNone rule) :
    Repair.sweepUntilStable rule f = (f, false) :=
  sweepUntilStable_of_unchanged (by rw [sweepUntilStable_snd, sweep_snd_eq_false_iff hnil]; exact h)

theorem Settled.everywhere (h : f.Settled) : Everywhere IsSettled f.children := fun n hn => ⟨h.nodes n hn, h.complete n hn⟩

/-- A repair other than the cleaning of texts leaves a settled fragment as it is. -/
theorem Settled.apply (h : f.Settled) (hmath : Everywhere (fun n => n.isMath = true) f.children) {rule : RepairRule}
    (hrule : rule ≠ .normalizeTexts) : rule.apply f.repairState f = (f, f.repairState) := by
  have hchildren : ∀ children : List Node, children = f.children → ({ f with children := children } : Fragment) = f :=
    fun _ heq => heq ▸ rfl
  cases rule with
  | stripForeign =>
    exact congrArg (·, _) (hchildren _ (pruneAll_of_everywhere (P := (·.isMath = true)) (fun _ _ h => h) _ none hmath))
  | unwrapBoxes =>
    exact congrArg (·, _) (hchildren _ (rebuildAll_of_everywhere (h.everywhere.mono fun n hn => unwrapBox_of_not_passing hn.box)))
  | rebuildIntegrals =>
    have hscripts : rebuildAll (fun node => [promoteScript node]) f.children = f.children :=
      rebuildAll_of_everywhere (h.everywhere.mono fun n hn => congrArg ([·]) (promoteScript_of_not_operator hn.operator))
    simp only [RepairRule.apply, Repair.rebuildIntegrals, hchildren _ hscripts, h.integrals.sweepUntilStable rfl]
  | repairNorms =>
    have hnone : splitFirstAmong? f.children = none := splitFirstAmong?_of_everywhere (h.everywhere.mono fun n hn => hn.bar)
    refine congrArg (·, _) (hchildren _ ?_)
    rw [maxNormRounds, splitNormRunsFor, hnone]
  | adoptIntegrands =>
    refine congrArg (·, _) (hchildren _ ?_)
    rw [adoptAmong_of_isChain h.adopted]
    exact map_eq_self fun n hn => adoptInside_of_everywhere n (h.everywhere.of_mem hn)
  | placeIntegralLimits =>
    refine congrArg (·, _) (hchildren _ (rebuildAll_of_everywhere (h.everywhere.mono fun n hn => ?_)))
    exact congrArg ([·]) (placeLimits_of_placed hn.limits)
  | wrapScriptBases => exact congrArg (·, _) (hchildren _ (wrapBasesAmong_of_everywhere h.everywhere))
  | wrapBrackets => exact congrArg (·, _) (congrArg Prod.fst (h.brackets.sweepUntilStable rfl))
  | wrapBraces => exact congrArg (·, _) (congrArg Prod.fst (h.braces.sweepUntilStable rfl))
  | rebuildFractions => simp only [RepairRule.apply, Repair.rebuildFractions, h.fractions.sweepUntilStable rfl, Bool.or_false]
  | promoteDelimiters =>
    simp only [RepairRule.apply]
    split
    · rfl
    · next hneither =>
      rcases h.delimiters with htop | hnone
      · exact absurd (by simp [Fragment.repairState, htop]) hneither
      · exact congrArg (·, _) (congrArg Prod.fst (hnone.sweepUntilStable rfl))
  | repairInvalidScripts =>
    have hscripts : rebuildAll dissolveInvalid f.children = f.children :=
      rebuildAll_of_everywhere (h.everywhere.mono fun n hn => dissolveInvalid_of_whole hn.script)
    refine congrArg (·, _) (hchildren _ ?_)
    rw [hscripts, hscripts]
  | removeUndefinedStyles =>
    have hdefined : pruneAll (fun parent node => !(parent.any isPropertyGroup && isUndefined node)) none f.children =
        f.children := by
      refine pruneAll_of_children none (fun n _ => rfl) (h.everywhere.mono fun n hn c hc => ?_)
      rw [Bool.not_eq_true', Bool.eq_false_iff]
      intro hundefined
      obtain ⟨hgroup, hc'⟩ := Bool.and_eq_true_iff.1 hundefined
      have hstyles := hn.styles
      rw [holdsUndefined, hgroup, Bool.true_and, List.any_eq_false] at hstyles
      exact hstyles c hc hc'
    refine congrArg (·, _) (hchildren _ ?_)
    rw [hdefined]
    exact pruneAll_of_everywhere (P := fun n => isEmptyRunProperties n = false) (fun _ n hn => by rw [hn]; rfl) _ none
      (h.everywhere.mono fun n hn => hn.runProperties)
  | normalizeTexts => exact absurd rfl hrule

theorem Settled.foldl (h : f.Settled) (hmath : Everywhere (fun n => n.isMath = true) f.children) (rules : List RepairRule)
    (hrules : .normalizeTexts ∉ rules) :
    rules.foldl (fun (f, state) rule => rule.apply state f) (f, f.repairState) = (f, f.repairState) := by
  induction rules with
  | nil => rfl
  | cons rule rules ih =>
    rw [List.mem_cons, not_or] at hrules
    have hstep : rule.apply f.repairState f = (f, f.repairState) := h.apply hmath (Ne.symm hrules.1)
    rw [List.foldl_cons]
    dsimp only
    rw [hstep, ih hrules.2]

/-- All that is done to a settled fragment of equation markup is to clean its texts. -/
theorem Settled.repair (h : f.Settled) (hmath : Everywhere (fun n => n.isMath = true) f.children) :
    f.repair [] = Repair.normalizeTexts f := by
  have hrules : RepairRule.all.filter (fun rule => !([] : List Text).contains rule.name) =
      RepairRule.all.dropLast ++ [.normalizeTexts] := rfl
  have happly : f.applyRules (RepairRule.all.dropLast ++ [.normalizeTexts]) = Repair.normalizeTexts f := by
    rw [applyRules, List.foldl_append, h.foldl hmath _ (by decide)]
    rfl
  have hfraction : (Repair.normalizeTexts f).hasFraction = f.hasFraction := by
    have hiff := everywhere_normalizeTexts (byName_isNamed "f" false) f.children
    rw [Bool.eq_iff_iff, ← not_iff_not, Bool.not_eq_true, Bool.not_eq_true, hasFraction_eq_false_iff, hasFraction_eq_false_iff]
    exact hiff
  rw [Fragment.repair, hrules]
  simp only [happly, hfraction, Bool.and_not_self, Bool.false_and, Bool.false_eq_true, if_false]

end Fragment

end EquationExport.Omml
